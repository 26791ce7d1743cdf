import SomniumDB.Core.Rooms
import SomniumDB.Properties.ColdFile

/-! # Evicting the least used keys

The loop of `evict_despised_keys` comes to an end however the keys are spread and whatever
is drawn, and at each of its exits the room, the index, the file and the figures agree. -/

namespace SomniumDB

open Bytes

namespace EvictionManager

/-! ## Finding a victim -/

/-- Somewhere ahead, counted around the end, a bucket is not empty. -/
theorem probe_some (buckets : List (List Bytes)) {tries bucket : Nat} (ahead : Nat)
    (start : bucket < buckets.length) (near : ahead < tries)
    (filled : (buckets[(bucket + ahead) % buckets.length]?).getD [] ≠ []) :
    ∃ key, probe buckets tries bucket = some key ∧ key ∈ buckets.flatten := by
  induction tries generalizing bucket ahead with
  | zero => exact absurd near (Nat.not_lt_zero ahead)
  | succ tries induction =>
      unfold probe
      cases here : (buckets[bucket]?).getD [] with
      | cons key rest =>
          refine ⟨key, rfl, List.mem_flatten.mpr ⟨key :: rest, ?_, List.mem_cons_self⟩⟩
          rw [List.getElem?_eq_getElem start, Option.getD_some] at here
          exact here ▸ List.getElem_mem start
      | nil =>
          cases ahead with
          | zero =>
              rw [Nat.add_zero, Nat.mod_eq_of_lt start] at filled
              exact absurd here filled
          | succ ahead =>
              have closer : ahead < tries := Nat.lt_of_succ_lt_succ near
              refine induction ahead (Nat.mod_lt _ (Nat.zero_lt_of_lt start)) closer ?_
              rw [Nat.mod_add_mod, Nat.add_assoc, Nat.add_comm 1 ahead]
              exact filled

/-- From any bucket the whole table is searched. -/
theorem probe_finds {buckets : List (List Bytes)} (nonempty : buckets.flatten ≠ [])
    (draw : Nat) :
    ∃ key, probe buckets buckets.length (draw % buckets.length) = some key ∧
      key ∈ buckets.flatten := by
  rcases List.exists_cons_of_ne_nil nonempty with ⟨key, rest, flat⟩
  have member : key ∈ buckets.flatten := by
    rw [flat]
    exact List.mem_cons_self
  rcases List.mem_flatten.mp member with ⟨group, among, inside⟩
  rcases List.mem_iff_getElem.mp among with ⟨place, bound, same⟩
  have start : draw % buckets.length < buckets.length :=
    Nat.mod_lt _ (Nat.zero_lt_of_lt bound)
  refine probe_some buckets ((place + buckets.length - draw % buckets.length) % buckets.length)
    start (Nat.mod_lt _ (Nat.zero_lt_of_lt bound)) ?_
  have around : (draw % buckets.length +
      (place + buckets.length - draw % buckets.length) % buckets.length) % buckets.length =
        place := by
    rw [Nat.add_mod_mod]
    have whole : draw % buckets.length + (place + buckets.length - draw % buckets.length) =
        place + buckets.length := by
      omega
    rw [whole, Nat.add_mod_right, Nat.mod_eq_of_lt bound]
  rw [around, List.getElem?_eq_getElem bound, Option.getD_some, same]
  exact List.ne_nil_of_mem inside

section Pick

variable {frequency : Bytes → Nat} {round : Round} {buckets : List (List Bytes)}

/-- The victim so far is one of the keys. -/
def Chosen (buckets : List (List Bytes)) (sampling : Sampling) : Prop :=
  ∃ victim, sampling.victim = some victim ∧ victim ∈ buckets.flatten

theorem chosen_sample (nonempty : buckets.flatten ≠ []) (sampling : Sampling)
    (before : sampling.victim = none ∨ Chosen buckets sampling) :
    Chosen buckets (sample frequency round buckets sampling) := by
  rcases probe_finds nonempty (round.draws sampling.drawn) with ⟨key, found, member⟩
  unfold sample
  rw [found]
  dsimp only
  by_cases absent : sampling.victim = none ∨ frequency key < sampling.lowest
  · rw [if_pos absent]
    exact ⟨key, rfl, member⟩
  · rw [if_neg absent]
    rcases before with none | chosen
    · exact absurd (.inl none) absent
    · exact chosen

theorem chosen_sampleMore (nonempty : buckets.flatten ≠ []) (left : Nat) (sampling : Sampling)
    (before : Chosen buckets sampling) :
    Chosen buckets (sampleMore frequency round buckets left sampling) := by
  induction left generalizing sampling with
  | zero => exact before
  | succ left induction =>
      unfold sampleMore
      by_cases busy : 2 < sampling.lowest
      · rw [if_pos busy]
        exact induction _ (chosen_sample nonempty sampling (.inr before))
      · rw [if_neg busy]
        exact before

theorem chosen_samples (nonempty : buckets.flatten ≠ []) (numbers : List Nat)
    (sampling : Sampling) (before : (sampling.victim = none ∧ numbers ≠ []) ∨
      Chosen buckets sampling) :
    Chosen buckets (numbers.foldl (fun sampling _ => sample frequency round buckets sampling)
      sampling) := by
  induction numbers generalizing sampling with
  | nil =>
      rcases before with ⟨_, nothing⟩ | chosen
      · exact absurd rfl nothing
      · exact chosen
  | cons number rest induction =>
      refine induction _ (.inr (chosen_sample nonempty sampling ?_))
      exact before.imp_left And.left

/-- A room that is not empty has a victim. -/
theorem pick_some (frequency : Bytes → Nat) (round : Round) {keys : List Bytes}
    (nonempty : keys ≠ []) :
    ∃ victim, pick frequency round keys = some victim ∧ victim ∈ keys := by
  have spread := round.table.spread keys
  have filled : (round.table.buckets keys).flatten ≠ [] := by
    intro empty
    rw [empty] at spread
    exact nonempty spread.nil_eq.symm
  have sampled : Chosen (round.table.buckets keys) ((List.range sampleSize).foldl
      (fun sampling _ => sample frequency round (round.table.buckets keys) sampling) {}) :=
    chosen_samples filled (List.range sampleSize) {} (.inl ⟨rfl, by decide⟩)
  have chosen : ∃ victim, pick frequency round keys = some victim ∧
      victim ∈ (round.table.buckets keys).flatten := by
    unfold pick
    dsimp only
    by_cases busy : 10 < ((List.range sampleSize).foldl
        (fun sampling _ => sample frequency round (round.table.buckets keys) sampling) {}).lowest
    · rw [if_pos busy]
      exact chosen_sampleMore filled extraSamples _ sampled
    · rw [if_neg busy]
      exact sampled
  rcases chosen with ⟨victim, picked, member⟩
  exact ⟨victim, picked, spread.mem_iff.mp member⟩

end Pick

/-! ## The end of the loop -/

theorem length_erase {keys : FiniteMap Bytes Record} {key : Bytes} {record : Record}
    (resident : keys.lookup key = some record) :
    (AList.erase key keys).entries.length + 1 = keys.entries.length := by
  have counted := FiniteMap.total_erase (fun _ _ => (1 : Int)) keys key
  rw [FiniteMap.total_one, FiniteMap.total_one, resident, Option.map_some,
    Option.getD_some] at counted
  unfold FiniteMap.toPairs at counted
  rw [List.length_map, List.length_map] at counted
  omega

theorem exists_of_mem_keys {keys : FiniteMap Bytes Record} {key : Bytes} (member : key ∈ keys.keys) :
    ∃ record, keys.lookup key = some record :=
  Option.isSome_iff_exists.mp (AList.lookup_isSome.mpr (AList.mem_keys.mpr member))

/-- Every round but the last takes a key out of the room, so that the loop ends; it ends
within the limits unless a write has failed. -/
theorem evictDespisedKeys_ends (frequency : Bytes → Nat) (rounds : Nat → Round) (name : Bytes)
    {watched : Nat} (number : Nat) (state : Evicting)
    (enough : state.room.keys.entries.length < watched) :
    ∃ after ok, evictDespisedKeys frequency rounds name watched number state =
        some (after, ok) ∧ (ok = true → overLimits after = false) ∧
      (state.manager.opened = true →
        (∀ number record, (Transfer.complete (rounds number).writes (encode record)).done = true) →
          ok = true) := by
  induction watched generalizing number state with
  | zero => exact absurd enough (Nat.not_lt_zero _)
  | succ watched induction =>
      unfold evictDespisedKeys
      cases exceeds : overLimits state with
      | false => exact ⟨state, true, rfl, fun _ => exceeds, fun _ _ => rfl⟩
      | true =>
          have nonempty : state.room.keys.keys ≠ [] := by
            intro empty
            unfold overLimits at exceeds
            rw [Bool.and_eq_true, decide_eq_true_eq] at exceeds
            refine exceeds.1 ?_
            unfold AList.keys List.keys at empty
            exact List.map_eq_nil_iff.mp empty
          rcases pick_some frequency (rounds number) nonempty with ⟨victim, picked, member⟩
          rcases exists_of_mem_keys member with ⟨record, resident⟩
          simp only [picked, resident, Bool.not_true, Bool.false_eq_true, if_false]
          rcases outcome : evict state name (rounds number).writes victim record with
            ⟨next, done⟩
          cases done with
          | false =>
              refine ⟨next, false, rfl, (fun ok => by cases ok), ?_⟩
              intro opened writes
              have succeeded : (evict state name (rounds number).writes victim record).2 = true :=
                evict_done opened (writes number record)
              rw [outcome] at succeeded
              exact succeeded
          | true =>
              have shape : next.room.keys = AList.erase victim state.room.keys ∧
                  next.manager.opened = state.manager.opened := by
                rcases evict_cases state name (rounds number).writes victim record with
                  ⟨bytes, failed⟩ | failed | done
                · rw [failed] at outcome
                  cases outcome
                · rw [failed] at outcome
                  cases outcome
                · rw [done] at outcome
                  cases outcome
                  exact ⟨rfl, rfl⟩
              have shorter := length_erase resident
              rw [← shape.1] at shorter
              have fewer : next.room.keys.entries.length < watched := by
                omega
              rcases induction (number + 1) next fewer with ⟨after, ok, ended, within, written⟩
              exact ⟨after, ok, ended, within, fun opened => written (shape.2.trans opened)⟩

/-! ## What has moved -/

/-- How far the loop has come from where it started: what has been evicted is no longer in
RAM, the rest is as it was, and the figures have followed. -/
structure Moves (start state : Evicting) : Prop where
  gone : ∀ key record, (key, record) ∈ state.evicted → state.room.keys.lookup key = none
  left : ∀ key, (∀ record, (key, record) ∉ state.evicted) →
    state.room.keys.lookup key = start.room.keys.lookup key
  evicted : ∀ key record, (key, record) ∈ state.evicted →
    start.room.keys.lookup key = some record
  bytes : state.room.bytes = start.room.bytes -
    (state.evicted.map fun entry => recordCost entry.1 entry.2).sum
  residentBytes : state.metrics.residentBytes = start.metrics.residentBytes -
    (state.evicted.map fun entry => recordCost entry.1 entry.2).sum
  keysInRam : state.metrics.keysInRam = start.metrics.keysInRam - state.evicted.length
  limits : state.manager.maxKeysPerRoom = start.manager.maxKeysPerRoom ∧
    state.manager.maxBytes = start.manager.maxBytes

theorem moves_start (manager : EvictionManager) (room : Room) (metrics : Metrics) :
    Moves { manager, room, metrics } { manager, room, metrics } where
  gone := by
    intro key record member
    cases member
  left := fun _ _ => rfl
  evicted := by
    intro key record member
    cases member
  bytes := (Int.sub_zero _).symm
  residentBytes := (Int.sub_zero _).symm
  keysInRam := (Int.sub_zero _).symm
  limits := ⟨rfl, rfl⟩

theorem Moves.evict {start state : Evicting} (moves : Moves start state) (name : Bytes)
    (writes : List Transfer) {victim : Bytes} {record : Record}
    (resident : state.room.keys.lookup victim = some record) :
    Moves start (evict state name writes victim record).1 := by
  rcases evict_cases state name writes victim record with ⟨bytes, failed⟩ | failed | done
  · rw [failed]
    exact ⟨moves.gone, moves.left, moves.evicted, moves.bytes, moves.residentBytes, moves.keysInRam,
      moves.limits⟩
  · rw [failed]
    exact moves
  · rw [done]
    have unmoved : ∀ found, (victim, found) ∉ state.evicted := by
      intro found member
      have absent := moves.gone victim found member
      rw [resident] at absent
      cases absent
    refine ⟨?_, ?_, ?_, ?_, ?_, ?_, moves.limits⟩
    · intro key found member
      dsimp only
      rw [FiniteMap.lookup_erase_if]
      by_cases same : key = victim
      · rw [if_pos same]
      · rw [if_neg same]
        rcases List.mem_append.mp member with earlier | now
        · exact moves.gone key found earlier
        · rw [List.mem_singleton] at now
          cases now
          exact absurd rfl same
    · intro key still
      dsimp only
      have other : key ≠ victim := by
        rintro rfl
        exact still record (List.mem_append_right _ (List.mem_singleton_self _))
      rw [FiniteMap.lookup_erase_if, if_neg other]
      exact moves.left key fun found member => still found (List.mem_append_left _ member)
    · intro key found member
      rcases List.mem_append.mp member with earlier | now
      · exact moves.evicted key found earlier
      · rw [List.mem_singleton] at now
        cases now
        exact (moves.left victim unmoved).symm.trans resident
    · dsimp only
      rw [List.map_append, List.sum_append, moves.bytes]
      simp
      omega
    · dsimp only
      rw [List.map_append, List.sum_append, moves.residentBytes]
      simp
      omega
    · dsimp only
      rw [List.length_append, moves.keysInRam]
      simp
      omega

/-- What cold storage has of a key after evictions that agree with `records`. -/
theorem find_putAway (cold : NestedMap Bytes Bytes Record) (name : Bytes)
    (records : Bytes → Option Record) (evicted : List (Bytes × Record))
    (agree : ∀ key record, (key, record) ∈ evicted → records key = some record) :
    (∀ key record, (key, record) ∈ evicted →
      (putAway cold name evicted).find name key = records key) ∧
    ∀ other key, (other ≠ name ∨ ∀ record, (key, record) ∉ evicted) →
      (putAway cold name evicted).find other key = cold.find other key := by
  induction evicted generalizing cold with
  | nil =>
      refine ⟨?_, fun other key _ => rfl⟩
      intro key record member
      cases member
  | cons entry rest induction =>
      rcases entry with ⟨first, record⟩
      have own := agree first record List.mem_cons_self
      rcases induction (cold.set name first record)
        fun key found member => agree key found (List.mem_cons_of_mem _ member) with
        ⟨moved, unmoved⟩
      refine ⟨?_, ?_⟩
      · intro key found member
        by_cases again : ∃ later, (key, later) ∈ rest
        · rcases again with ⟨later, inside⟩
          exact moved key later inside
        · rcases List.mem_cons.mp member with here | inside
          · cases here
            refine (unmoved name first (.inr fun later inside => again ⟨later, inside⟩)).trans ?_
            rw [NestedMap.find_set, if_pos ⟨rfl, rfl⟩, own]
          · exact absurd ⟨found, inside⟩ again
      · intro other key elsewhere
        refine (unmoved other key ?_).trans ?_
        · exact elsewhere.imp_right fun never later inside =>
            never later (List.mem_cons_of_mem _ inside)
        · rw [NestedMap.find_set, if_neg]
          rintro ⟨here, same⟩
          rcases elsewhere with foreign | never
          · exact foreign here
          · exact never record (same ▸ List.mem_cons_self)

/-! ## Eviction in a node

A node whose cold storage is the file and its index evicts as `Db.evictDespisedKeys` does,
with the victims that the loop has found. -/

structure Mirrors (db : Db) (name : Bytes) (state : Evicting) : Prop where
  room : db.room name = state.room
  metrics : db.metrics = state.metrics
  maxKeys : db.config.maxKeys = state.manager.maxKeysPerRoom
  maxMemory : db.config.maxMemory = state.manager.maxBytes
  fileBytes : db.coldFileBytes = state.manager.fileBytes
  stores : Stores state.manager db.cold

theorem length_encode (record : Record) : (encode record).length = Db.coldSize record := by
  simp only [encode, List.length_append, length_littleEndian, Db.coldSize]
  omega

/-- One round that succeeds is one round of the node with the same victim. -/
theorem Mirrors.round {db : Db} {name : Bytes} {state : Evicting} (mirrors : Mirrors db name state)
    {number : Nat} {rounds : Nat → Round} {victim : Bytes} {record : Record}
    (exceeds : overLimits state = true) (resident : state.room.keys.lookup victim = some record)
    (ranged : Ranged record)
    (done : (evict state name (rounds number).writes victim record).2 = true) :
    ∃ next, (∀ rest, db.evictDespisedKeys name (victim :: rest) =
        next.evictDespisedKeys name rest) ∧
      Mirrors next name (evict state name (rounds number).writes victim record).1 := by
  have keys : db.keysOf name = state.room.keys := congrArg Room.keys mirrors.room
  have limits : ¬((db.keysOf name).entries = [] ∨
      ((db.keysOf name).toPairs.length ≤ db.config.maxKeys ∧ db.fits 0 = true)) := by
    unfold overLimits EvictionManager.fits at exceeds
    unfold Db.fits FiniteMap.toPairs
    rw [List.length_map, keys, mirrors.metrics, mirrors.maxKeys, mirrors.maxMemory]
    simp only [Bool.and_eq_true, Bool.or_eq_true, decide_eq_true_eq, Bool.not_eq_true',
      decide_eq_false_iff_not] at exceeds ⊢
    rintro (empty | ⟨few, fits⟩)
    · exact exceeds.1 empty
    · rcases exceeds.2 with many | large
      · omega
      · exact large fits
  rcases evict_cases state name (rounds number).writes victim record with
    ⟨bytes, outcome⟩ | outcome | outcome
  · rw [outcome] at done
    cases done
  · rw [outcome] at done
    cases done
  · refine ⟨{ db with
        cold := db.cold.set name victim record
        coldFileBytes := db.coldFileBytes + Db.coldSize record }.putKeys name
          ((db.keysOf name).erase victim) (-recordCost victim record) (-1), ?_, ?_⟩
    · intro rest
      rw [Db.evictDespisedKeys, if_neg limits, keys, resident]
    · rw [outcome]
      refine ⟨?_, ?_, mirrors.maxKeys, mirrors.maxMemory, ?_, ?_⟩
      · unfold Db.putKeys
        unfold Db.room
        dsimp only
        rw [FiniteMap.lookup_insert_if, if_pos rfl, Option.getD_some, keys]
        have before : (AList.lookup name db.rooms).getD {} = state.room := mirrors.room
        rw [before, Int.sub_eq_add_neg]
      · unfold Db.putKeys
        dsimp only
        rw [mirrors.metrics, Int.sub_eq_add_neg, Int.sub_eq_add_neg]
      · change db.coldFileBytes + Db.coldSize record = _
        rw [mirrors.fileBytes, ← length_encode]
      · exact mirrors.stores.added name victim ranged

theorem Mirrors.evicted {db : Db} {name : Bytes} {frequency : Bytes → Nat} {rounds : Nat → Round}
    {watched number : Nat} {state after : Evicting} {ok : Bool} (mirrors : Mirrors db name state)
    (ranged : RangedRoom state.room)
    (ended : evictDespisedKeys frequency rounds name watched number state = some (after, ok)) :
    ∃ victims, Mirrors (db.evictDespisedKeys name victims) name after := by
  induction watched generalizing number state db with
  | zero => cases ended
  | succ watched induction =>
      unfold evictDespisedKeys at ended
      by_cases settled : (!overLimits state) = true
      · rw [if_pos settled] at ended
        cases ended
        exact ⟨[], mirrors⟩
      · rw [if_neg settled] at ended
        have exceeds : overLimits state = true := by
          simpa using settled
        dsimp only at ended
        cases picked : pick frequency (rounds number) (AList.keys state.room.keys) with
        | none =>
            simp only [picked] at ended
            cases ended
        | some victim =>
            simp only [picked] at ended
            cases resident : state.room.keys.lookup victim with
            | none =>
                simp only [resident] at ended
                cases ended
            | some record =>
                simp only [resident] at ended
                have typed := ranged victim record resident
                split at ended
                · rename_i failed outcome
                  cases ended
                  refine ⟨[], ?_⟩
                  have step := evict_cases state name (rounds number).writes victim record
                  rw [outcome] at step
                  rcases step with ⟨bytes, same⟩ | same | same
                  · cases same
                    exact ⟨mirrors.room, mirrors.metrics, mirrors.maxKeys, mirrors.maxMemory,
                      mirrors.fileBytes, mirrors.stores.overwritten bytes⟩
                  · cases same
                    exact mirrors
                  · cases same
                · rename_i next outcome
                  have succeeded : (evict state name (rounds number).writes victim record).2 =
                      true := by
                    rw [outcome]
                  rcases mirrors.round exceeds resident typed succeeded with ⟨nextDb, same, further⟩
                  rw [outcome] at further
                  have left : RangedRoom next.room := by
                    have step := evict_cases state name (rounds number).writes victim record
                    rw [outcome] at step
                    rcases step with ⟨bytes, same⟩ | same | same
                    · cases same
                    · cases same
                    · cases same
                      intro key found stored
                      dsimp only at stored
                      rw [FiniteMap.lookup_erase_if] at stored
                      by_cases equal : key = victim
                      · rw [if_pos equal] at stored
                        cases stored
                      · rw [if_neg equal] at stored
                        exact ranged key found stored
                  rcases induction further left ended with ⟨victims, final⟩
                  exact ⟨victim :: victims, by rw [same]; exact final⟩

/-- The record that the index and the file have of a key. -/
def recordOf (manager : EvictionManager) (name key : Bytes) : Option Record :=
  (manager.index.find name key).map fun ref =>
    decode (Transfer.readAt manager.file ref.off ref.len)

theorem Stores.recordOf {manager : EvictionManager} {cold : NestedMap Bytes Bytes Record}
    (stores : Stores manager cold) (name key : Bytes) :
    manager.recordOf name key = cold.find name key := by
  unfold EvictionManager.recordOf
  have same := stores.indexed name key
  cases indexed : manager.index.find name key with
  | none =>
      rw [indexed] at same
      cases stored : cold.find name key with
      | none => rfl
      | some record =>
          rw [stored] at same
          cases same
  | some ref =>
      rcases stores.found indexed with ⟨record, stored⟩
      rw [stored, Option.map_some, (stores.held name key ref record indexed stored).2.2,
        decode_encode (stores.ranged name key record stored)]

/-- A write that fails leaves all but the bytes behind the logical end as they were. -/
theorem evict_failed {state : Evicting} {name : Bytes} {writes : List Transfer} {victim : Bytes}
    {record : Record} (failed : (evict state name writes victim record).2 = false) :
    (evict state name writes victim record).1.room = state.room ∧
      (evict state name writes victim record).1.metrics = state.metrics ∧
      (evict state name writes victim record).1.manager.index = state.manager.index ∧
      (evict state name writes victim record).1.manager.fileBytes = state.manager.fileBytes := by
  rcases evict_cases state name writes victim record with ⟨bytes, outcome⟩ | outcome | outcome
  · rw [outcome]
    exact ⟨rfl, rfl, rfl, rfl⟩
  · rw [outcome]
    exact ⟨rfl, rfl, rfl, rfl⟩
  · rw [outcome] at failed
    cases failed

/-- The loop ends; unless a write has failed the room is within its limits or empty; what
left RAM is in cold storage as it was and the rest is where it was; and a round whose write
fails leaves its victim in RAM. -/
theorem eviction_within_limits (maxKeys maxBytes : Nat) (opened : Bool) (ops : List ColdOp)
    (typed : ∀ op ∈ ops, op.Typed) (frequency : Bytes → Nat) (rounds : Nat → Round)
    (name : Bytes) (room : Room) (ranged : RangedRoom room) (metrics : Metrics) :
    let manager := ((started maxKeys maxBytes opened).run ops).manager
    (∃ after ok, evictDespisedKeys frequency rounds name (room.keys.entries.length + 1) 0
        { manager, room, metrics } = some (after, ok) ∧
      (manager.opened = true →
        (∀ number record, (Transfer.complete (rounds number).writes (encode record)).done = true) →
          ok = true) ∧
      (ok = true → after.room.keys.entries.length ≤ manager.maxKeysPerRoom ∧
        (manager.maxBytes = 0 ∨ after.metrics.residentBytes ≤ manager.maxBytes ∨
          after.room.keys.entries = [])) ∧
      (∀ key record, room.keys.lookup key = some record →
        (after.room.keys.lookup key = some record ∧
          after.manager.recordOf name key = manager.recordOf name key) ∨
        (after.room.keys.lookup key = none ∧ after.manager.recordOf name key = some record)) ∧
      (∀ key, room.keys.lookup key = none → after.room.keys.lookup key = none ∧
        after.manager.recordOf name key = manager.recordOf name key) ∧
      (∀ other key, other ≠ name →
        after.manager.recordOf other key = manager.recordOf other key) ∧
      Moves { manager, room, metrics } after) ∧
    ∀ state writes victim record, (evict state name writes victim record).2 = false →
      (evict state name writes victim record).1.room = state.room ∧
        (evict state name writes victim record).1.metrics = state.metrics ∧
        (evict state name writes victim record).1.manager.index = state.manager.index ∧
        (evict state name writes victim record).1.manager.fileBytes =
          state.manager.fileBytes := by
  intro manager
  refine ⟨?_, fun state writes victim record failed => evict_failed failed⟩
  generalize coldEq : ((started maxKeys maxBytes opened).run ops).cold = cold
  have stores : Stores manager cold := by
    rw [← coldEq]
    exact (stores_started maxKeys maxBytes opened).run ops typed
  rcases evictDespisedKeys_ends frequency rounds name 0
    { manager, room, metrics } (Nat.lt_succ_self _) with ⟨after, ok, ended, within, written⟩
  have beginning : Stores ({ manager, room, metrics } : Evicting).manager
      (putAway cold name ({ manager, room, metrics } : Evicting).evicted) := stores
  have stored := (beginning.evicting ranged ended).1
  have moves : Moves { manager, room, metrics } after := by
    refine evictDespisedKeys_induct (Moves { manager, room, metrics }) ?_ ?_ ended
    · intro state number victim record moves resident _
      exact moves.evict name _ resident
    · exact moves_start manager room metrics
  rcases find_putAway cold name (fun key => room.keys.lookup key) after.evicted moves.evicted with
    ⟨found, elsewhere⟩
  have unmoved : ∀ other key, (other ≠ name ∨ ∀ record, (key, record) ∉ after.evicted) →
      after.manager.recordOf other key = manager.recordOf other key := by
    intro other key never
    rw [stored.recordOf, stores.recordOf]
    exact elsewhere other key never
  refine ⟨after, ok, ended, written, ?_, ?_, ?_, fun other key foreign =>
    unmoved other key (.inl foreign), moves⟩
  · intro succeeded
    have done := within succeeded
    unfold overLimits fits at done
    rw [moves.limits.1, moves.limits.2] at done
    simp only [Bool.and_eq_false_iff, Bool.or_eq_false_iff, decide_eq_false_iff_not,
      Bool.not_eq_false', decide_eq_true_eq, not_not, Int.add_zero] at done
    rcases done with empty | ⟨few, unlimited | fits⟩
    · exact ⟨by rw [empty]; exact Nat.zero_le _, .inr (.inr empty)⟩
    · exact ⟨Nat.le_of_not_lt few, .inl unlimited⟩
    · exact ⟨Nat.le_of_not_lt few, .inr (.inl fits)⟩
  · intro key record resident
    by_cases evicted : ∃ moved, (key, moved) ∈ after.evicted
    · rcases evicted with ⟨moved, member⟩
      refine .inr ⟨moves.gone key moved member, ?_⟩
      rw [stored.recordOf, found key moved member]
      exact resident
    · have still : ∀ moved, (key, moved) ∉ after.evicted := fun moved member =>
        evicted ⟨moved, member⟩
      exact .inl ⟨(moves.left key still).trans resident, unmoved name key (.inr still)⟩
  · intro key absent
    have still : ∀ moved, (key, moved) ∉ after.evicted := by
      intro moved member
      have resident := moves.evicted key moved member
      rw [absent] at resident
      cases resident
    exact ⟨(moves.left key still).trans absent, unmoved name key (.inr still)⟩

/-- A room of two keys under a limit of one, whose cold file takes three bytes at a time. -/
theorem eviction_within_limits_pair :
    ∃ after ok, evictDespisedKeys (fun _ => 0) (fun _ =>
        { table := ⟨fun keys => [keys], fun keys => by simp⟩
          draws := fun _ => 0
          writes := List.replicate 10 (.moved 3) }) (ascii "r") 3 0
        { manager := { maxKeysPerRoom := 1, maxBytes := 0 }
          room :=
            { keys := AList.insert (ascii "j") { value := ascii "b" }
                (AList.insert (ascii "k") { value := ascii "a" } ∅) }
          metrics := {} } = some (after, ok) := by
  obtain ⟨after, ok, ended, _⟩ := (eviction_within_limits 1 0 true [] (by simp) (fun _ => 0)
    (fun _ =>
      { table := ⟨fun keys => [keys], fun keys => by simp⟩
        draws := fun _ => 0
        writes := List.replicate 10 (.moved 3) }) (ascii "r")
    { keys := AList.insert (ascii "j") { value := ascii "b" }
        (AList.insert (ascii "k") { value := ascii "a" } ∅) } typed_tornEviction {}).1
  exact ⟨after, ok, ended⟩

end EvictionManager

end SomniumDB
