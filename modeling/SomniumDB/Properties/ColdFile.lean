import Mathlib.Data.List.Pairwise
import SomniumDB.Storage.EvictionManager

/-! # The cold file and its index

Whatever is evicted, taken back and compacted, and wherever a call on the file fails: the
index tells for each key where its own record lies. -/

namespace SomniumDB

open Bytes

namespace EvictionManager

/-! ## Records -/

/-- The numbers of a record have their types. -/
structure Ranged (record : Record) : Prop where
  deadline : -2 ^ 63 ≤ record.expireAt ∧ record.expireAt < 2 ^ 63
  timestamp : record.timestampMs < 2 ^ 64
  node : record.nodeId < 2 ^ 32

theorem value_littleEndian {width number : Nat} (small : number < 256 ^ width) :
    Cursor.value width (littleEndian width number) = number := by
  have read := readLittleEndian_append small []
  rw [List.append_nil] at read
  rw [Cursor.value, read]
  rfl

theorem decode_encode {record : Record} (ranged : Ranged record) :
    decode (encode record) = record := by
  have eight : ∀ number, (littleEndian 8 number).length = 8 := length_littleEndian 8
  have four : ∀ number, (littleEndian 4 number).length = 4 := length_littleEndian 4
  have first : (encode record).take 8 = littleEndian 8 (unsigned record.expireAt) := by
    rw [encode, List.take_left' (eight _)]
  have afterFirst : (encode record).drop 8 = littleEndian 8 record.timestampMs ++
      (littleEndian 4 record.nodeId ++ record.value) := by
    rw [encode, List.drop_left' (eight _)]
  have afterSecond : (encode record).drop 16 = littleEndian 4 record.nodeId ++ record.value := by
    have split : (encode record).drop 16 = ((encode record).drop 8).drop 8 := by
      rw [List.drop_drop]
    rw [split, afterFirst, List.drop_left' (eight _)]
  have afterThird : (encode record).drop kHeader = record.value := by
    have split : (encode record).drop kHeader = ((encode record).drop 16).drop 4 := by
      rw [List.drop_drop]
      rfl
    rw [split, afterSecond, List.drop_left' (four _)]
  unfold decode
  rw [first, afterFirst, afterSecond, afterThird, List.take_left' (eight _),
    List.take_left' (four _), value_littleEndian (unsigned_lt _),
    value_littleEndian ranged.timestamp, value_littleEndian ranged.node,
    signed_unsigned ranged.deadline.1 ranged.deadline.2]

/-! ## What the file stores -/

/-- The records of `cold` are in the file where the index says, apart from each other. -/
structure Stores (manager : EvictionManager) (cold : NestedMap Bytes Bytes Record) : Prop where
  within : manager.fileBytes ≤ manager.file.length
  indexed : ∀ name key, (manager.index.find name key).isSome = (cold.find name key).isSome
  held : ∀ name key ref record, manager.index.find name key = some ref →
    cold.find name key = some record → ref.off + ref.len ≤ manager.fileBytes ∧
      ref.len = (encode record).length ∧
      Transfer.readAt manager.file ref.off ref.len = encode record
  ranged : ∀ name key record, cold.find name key = some record → Ranged record
  apart : ∀ name key ref other within ref', manager.index.find name key = some ref →
    manager.index.find other within = some ref' → (name, key) ≠ (other, within) →
      ref.off + ref.len ≤ ref'.off ∨ ref'.off + ref'.len ≤ ref.off

variable {manager : EvictionManager} {cold : NestedMap Bytes Bytes Record}

theorem Stores.found (stores : Stores manager cold) {name key : Bytes} {ref : ColdRef}
    (indexed : manager.index.find name key = some ref) :
    ∃ record, cold.find name key = some record := by
  have same := stores.indexed name key
  rw [indexed, Option.isSome_some] at same
  exact Option.isSome_iff_exists.mp same.symm

/-- Only what can be found counts. -/
theorem Stores.congr (stores : Stores manager cold) {other : NestedMap Bytes Bytes Record}
    (same : ∀ name key, other.find name key = cold.find name key) : Stores manager other where
  within := stores.within
  indexed := fun name key => (stores.indexed name key).trans (by rw [same])
  held := fun name key ref record indexed found =>
    stores.held name key ref record indexed ((same name key).symm.trans found)
  ranged := fun name key record found =>
    stores.ranged name key record ((same name key).symm.trans found)
  apart := stores.apart

/-- Bytes behind the logical end do not matter. -/
theorem Stores.overwritten (stores : Stores manager cold) (bytes : Bytes) :
    Stores { manager with file := Transfer.writeAt manager.file manager.fileBytes bytes } cold where
  within := (Nat.le_add_right _ _).trans (Transfer.length_writeAt stores.within bytes)
  indexed := stores.indexed
  held := by
    intro name key ref record indexed found
    rcases stores.held name key ref record indexed found with ⟨below, length, content⟩
    exact ⟨below, length,
      (Transfer.readAt_writeAt_before stores.within bytes below).trans content⟩
  ranged := stores.ranged
  apart := stores.apart

/-- A record that is written at the logical end. -/
theorem Stores.added (stores : Stores manager cold) (name key : Bytes) {record : Record}
    (ranged : Ranged record) :
    Stores { manager with
        file := Transfer.writeAt manager.file manager.fileBytes (encode record)
        index := manager.index.set name key ⟨manager.fileBytes, (encode record).length⟩
        fileBytes := manager.fileBytes + (encode record).length }
      (cold.set name key record) where
  within := Transfer.length_writeAt stores.within _
  indexed := by
    intro other within
    dsimp only
    rw [NestedMap.find_set, NestedMap.find_set]
    by_cases hit : other = name ∧ within = key
    · simp only [if_pos hit]
      rfl
    · simp only [if_neg hit]
      exact stores.indexed other within
  held := by
    intro other within ref found indexed stored
    dsimp only at indexed ⊢
    rw [NestedMap.find_set] at indexed stored
    by_cases here : other = name ∧ within = key
    · rw [if_pos here] at indexed
      rw [if_pos here] at stored
      cases indexed
      cases stored
      exact ⟨le_rfl, rfl, Transfer.readAt_writeAt_self stores.within _⟩
    · rw [if_neg here] at indexed
      rw [if_neg here] at stored
      rcases stores.held other within ref found indexed stored with ⟨below, length, content⟩
      exact ⟨below.trans (Nat.le_add_right _ _), length,
        (Transfer.readAt_writeAt_before stores.within _ below).trans content⟩
  ranged := by
    intro other within found stored
    rw [NestedMap.find_set] at stored
    by_cases same : other = name ∧ within = key
    · rw [if_pos same] at stored
      cases stored
      exact ranged
    · rw [if_neg same] at stored
      exact stores.ranged other within found stored
  apart := by
    intro name₁ key₁ ref₁ name₂ key₂ ref₂ first second differ
    dsimp only at first second
    rw [NestedMap.find_set] at first second
    have below : ∀ {other within : Bytes} {ref : ColdRef},
        manager.index.find other within = some ref → ref.off + ref.len ≤ manager.fileBytes := by
      intro other within ref indexed
      rcases stores.found indexed with ⟨found, stored⟩
      exact (stores.held other within ref found indexed stored).1
    by_cases here : name₁ = name ∧ key₁ = key
    · rw [if_pos here] at first
      cases first
      by_cases again : name₂ = name ∧ key₂ = key
      · rw [if_pos again] at second
        exact absurd (Prod.ext (here.1.trans again.1.symm) (here.2.trans again.2.symm)) differ
      · rw [if_neg again] at second
        exact .inr (below second)
    · rw [if_neg here] at first
      by_cases same : name₂ = name ∧ key₂ = key
      · rw [if_pos same] at second
        cases second
        exact .inl (below first)
      · rw [if_neg same] at second
        exact stores.apart name₁ key₁ ref₁ name₂ key₂ ref₂ first second differ

/-- A key that is taken out of the index. -/
theorem Stores.removed (stores : Stores manager cold) (name key : Bytes) (obsolete : Nat) :
    Stores { manager with index := manager.index.remove name key, obsoleteBytes := obsolete }
      (cold.remove name key) where
  within := stores.within
  indexed := by
    intro other within
    dsimp only
    rw [NestedMap.find_remove, NestedMap.find_remove]
    by_cases hit : other = name ∧ within = key
    · simp only [if_pos hit]
      rfl
    · simp only [if_neg hit]
      exact stores.indexed other within
  held := by
    intro other within ref found indexed stored
    dsimp only at indexed
    rw [NestedMap.find_remove] at indexed stored
    by_cases here : other = name ∧ within = key
    · rw [if_pos here] at indexed
      cases indexed
    · rw [if_neg here] at indexed
      rw [if_neg here] at stored
      exact stores.held other within ref found indexed stored
  ranged := by
    intro other within found stored
    rw [NestedMap.find_remove] at stored
    by_cases here : other = name ∧ within = key
    · rw [if_pos here] at stored
      cases stored
    · rw [if_neg here] at stored
      exact stores.ranged other within found stored
  apart := by
    intro name₁ key₁ ref₁ name₂ key₂ ref₂ first second differ
    dsimp only at first second
    rw [NestedMap.find_remove] at first second
    by_cases same : name₁ = name ∧ key₁ = key
    · rw [if_pos same] at first
      cases first
    · rw [if_neg same] at first
      by_cases here : name₂ = name ∧ key₂ = key
      · rw [if_pos here] at second
        cases second
      · rw [if_neg here] at second
        exact stores.apart name₁ key₁ ref₁ name₂ key₂ ref₂ first second differ

/-- A complete read of an entry. -/
theorem Stores.read (stores : Stores manager cold) {name key : Bytes} {ref : ColdRef}
    {calls : List Transfer} {raw : Bytes} (indexed : manager.index.find name key = some ref)
    (read : Transfer.pread manager.file calls ref.off ref.len = some raw) :
    ∃ record, cold.find name key = some record ∧ raw = encode record ∧ decode raw = record := by
  rcases stores.found indexed with ⟨record, stored⟩
  have content := (stores.held name key ref record indexed stored).2.2
  have raw := (Transfer.pread_some read).trans content
  refine ⟨record, stored, raw, ?_⟩
  rw [raw, decode_encode (stores.ranged name key record stored)]

theorem Stores.take (stores : Stores manager cold) (name key : Bytes) (calls : List Transfer) :
    (take manager name key calls = (manager, none)) ∨
      ∃ record, (EvictionManager.take manager name key calls).2 = some record ∧
        cold.find name key = some record ∧
        Stores (EvictionManager.take manager name key calls).1 (cold.remove name key) := by
  unfold EvictionManager.take
  cases indexed : manager.index.find name key with
  | none => exact .inl rfl
  | some ref =>
      dsimp only
      cases read : Transfer.pread manager.file calls ref.off ref.len with
      | none => exact .inl rfl
      | some raw =>
          rcases stores.read indexed read with ⟨record, stored, _, decoded⟩
          exact .inr ⟨record, congrArg some decoded, stored, stores.removed name key _⟩

/-! ## Eviction -/

/-- What the evictions of a room have put away. -/
def putAway (cold : NestedMap Bytes Bytes Record) (name : Bytes)
    (evicted : List (Bytes × Record)) : NestedMap Bytes Bytes Record :=
  evicted.foldl (fun cold entry => cold.set name entry.1 entry.2) cold

theorem putAway_snoc (cold : NestedMap Bytes Bytes Record) (name : Bytes)
    (evicted : List (Bytes × Record)) (key : Bytes) (record : Record) :
    putAway cold name (evicted ++ [(key, record)]) =
      (putAway cold name evicted).set name key record := by
  unfold putAway
  rw [List.foldl_append]
  rfl

/-- The end of a round: the victim is in the file and nowhere else, or only bytes behind the
logical end have changed. -/
theorem evict_cases (state : Evicting) (name : Bytes) (writes : List Transfer) (victim : Bytes)
    (record : Record) :
    (∃ bytes, evict state name writes victim record =
        ({ state with
            manager :=
              { state.manager with
                file := Transfer.writeAt state.manager.file state.manager.fileBytes bytes } },
          false)) ∨
      evict state name writes victim record = (state, false) ∨
      evict state name writes victim record =
        ({ manager :=
            { state.manager with
              file := Transfer.writeAt state.manager.file state.manager.fileBytes (encode record)
              index := state.manager.index.set name victim
                ⟨state.manager.fileBytes, (encode record).length⟩
              fileBytes := state.manager.fileBytes + (encode record).length }
           room :=
            { state.room with
              keys := state.room.keys.erase victim
              bytes := state.room.bytes - recordCost victim record }
           metrics :=
            { state.metrics with
              residentBytes := state.metrics.residentBytes - recordCost victim record
              keysInRam := state.metrics.keysInRam - 1 }
           evicted := state.evicted ++ [(victim, record)] }, true) := by
  unfold evict
  dsimp only
  by_cases closed : (!state.manager.opened) = true
  · rw [if_pos closed]
    exact .inr (.inl rfl)
  · rw [if_neg closed]
    by_cases failed : (!(Transfer.complete writes (encode record)).done) = true
    · rw [if_pos failed]
      exact .inl ⟨_, rfl⟩
    · rw [if_neg failed]
      have done : (Transfer.complete writes (encode record)).done = true := by
        simpa using failed
      rw [Transfer.complete_done done]
      exact .inr (.inr rfl)

/-- A write that succeeds. -/
theorem evict_done {state : Evicting} {name : Bytes} {writes : List Transfer} {victim : Bytes}
    {record : Record} (opened : state.manager.opened = true)
    (done : (Transfer.complete writes (encode record)).done = true) :
    (evict state name writes victim record).2 = true := by
  unfold evict
  dsimp only
  rw [opened, done]
  rfl

/-- What holds at the start of a round holds when the loop ends. -/
theorem evictDespisedKeys_induct {frequency : Bytes → Nat} {rounds : Nat → Round} {name : Bytes}
    (holds : Evicting → Prop)
    (step : ∀ state number victim record, holds state →
      state.room.keys.lookup victim = some record → overLimits state = true →
        holds (evict state name (rounds number).writes victim record).1)
    {watched number : Nat} {state after : Evicting} {ok : Bool} (start : holds state)
    (ended : evictDespisedKeys frequency rounds name watched number state = some (after, ok)) :
    holds after := by
  induction watched generalizing number state with
  | zero => cases ended
  | succ watched induction =>
      unfold evictDespisedKeys at ended
      by_cases settled : (!overLimits state) = true
      · rw [if_pos settled] at ended
        cases ended
        exact start
      · rw [if_neg settled] at ended
        have exceeds : overLimits state = true := by
          simpa using settled
        dsimp only at ended
        cases picked : pick frequency (rounds number) state.room.keys.keys with
        | none =>
            rw [picked] at ended
            cases ended
        | some victim =>
            rw [picked] at ended
            dsimp only at ended
            cases resident : state.room.keys.lookup victim with
            | none =>
                rw [resident] at ended
                cases ended
            | some record =>
                rw [resident] at ended
                dsimp only at ended
                have next := step state number victim record start resident exceeds
                rcases outcome : evict state name (rounds number).writes victim record with
                  ⟨evicted, done⟩
                rw [outcome] at ended next
                cases done with
                | true => exact induction next ended
                | false =>
                    cases ended
                    exact next

/-- The records of a room have their types. -/
def RangedRoom (room : Room) : Prop :=
  ∀ key record, room.keys.lookup key = some record → Ranged record

theorem Stores.evicting {frequency : Bytes → Nat} {rounds : Nat → Round} {name : Bytes}
    {watched number : Nat} {state after : Evicting} {ok : Bool}
    (stores : Stores state.manager (putAway cold name state.evicted))
    (ranged : RangedRoom state.room)
    (ended : evictDespisedKeys frequency rounds name watched number state = some (after, ok)) :
    Stores after.manager (putAway cold name after.evicted) ∧ RangedRoom after.room := by
  refine evictDespisedKeys_induct
    (fun state => Stores state.manager (putAway cold name state.evicted) ∧ RangedRoom state.room)
    ?_ ⟨stores, ranged⟩ ended
  intro state number victim record ⟨stores, ranged⟩ resident _
  rcases evict_cases state name (rounds number).writes victim record with
    ⟨bytes, failed⟩ | failed | done
  · rw [failed]
    exact ⟨stores.overwritten bytes, ranged⟩
  · rw [failed]
    exact ⟨stores, ranged⟩
  · rw [done]
    refine ⟨?_, ?_⟩
    · dsimp only
      rw [putAway_snoc]
      exact stores.added name victim (ranged victim record resident)
    · intro key found stored
      dsimp only at stored
      rw [FiniteMap.lookup_erase_if] at stored
      by_cases same : key = victim
      · rw [if_pos same] at stored
        cases stored
      · rw [if_neg same] at stored
        exact ranged key found stored

/-! ## Compaction -/

/-- Cold storage as it will be when the new file is in use. -/
def Rewritten.published (fresh : Rewritten) (before : EvictionManager) : EvictionManager :=
  { before with
    opened := true
    file := fresh.file
    index := fresh.index
    fileBytes := fresh.size
    obsoleteBytes := 0 }

def unexpiredCold (cold : NestedMap Bytes Bytes Record) (now : Nat) :
    NestedMap Bytes Bytes Record :=
  cold.filter fun _ _ record => !record.expired now

/-- The new file so far: it stores some of the unexpired records and ends with the last. -/
structure Copied (manager : EvictionManager) (cold : NestedMap Bytes Bytes Record) (now : Nat)
    (fresh : Rewritten) (copied : NestedMap Bytes Bytes Record) : Prop where
  stores : Stores (fresh.published manager) copied
  exact : fresh.file.length = fresh.size
  among : ∀ name key record, copied.find name key = some record →
    (unexpiredCold cold now).find name key = some record

theorem find_unexpiredCold (cold : NestedMap Bytes Bytes Record) (now : Nat) (name key : Bytes) :
    (unexpiredCold cold now).find name key =
      (cold.find name key).filter fun record => !record.expired now :=
  NestedMap.find_filter _ cold name key

/-- At the end of a file a write is an append. -/
theorem writeAt_end (file bytes : Bytes) :
    Transfer.writeAt file file.length bytes = file ++ bytes := by
  unfold Transfer.writeAt
  rw [List.take_length, Nat.sub_self, List.replicate_zero, List.append_nil,
    List.drop_eq_nil_of_le (by omega), List.append_nil]

/-- One record more in the new file. -/
theorem Copied.added {now : Nat} {fresh : Rewritten} {copied : NestedMap Bytes Bytes Record}
    (before : Copied manager cold now fresh copied) {name key : Bytes} {record : Record}
    (ranged : Ranged record)
    (live : (unexpiredCold cold now).find name key = some record) :
    Copied manager cold now
      { file := fresh.file ++ encode record
        index := fresh.index.set name key ⟨fresh.size, (encode record).length⟩
        size := fresh.size + (encode record).length } (copied.set name key record) where
  stores := by
    have grown := before.stores.added name key ranged
    have appended : Transfer.writeAt (fresh.published manager).file
        (fresh.published manager).fileBytes (encode record) = fresh.file ++ encode record := by
      change Transfer.writeAt fresh.file fresh.size (encode record) = _
      rw [← before.exact]
      exact writeAt_end _ _
    rw [appended] at grown
    exact grown
  exact := by
    rw [List.length_append, before.exact]
  among := by
    intro other within found stored
    rw [NestedMap.find_set] at stored
    by_cases here : other = name ∧ within = key
    · rw [if_pos here] at stored
      cases stored
      rw [here.1, here.2]
      exact live
    · rw [if_neg here] at stored
      exact before.among other within found stored

/-- The loop copies every unexpired record of the entries it goes through. -/
theorem copyLoop_copied (stores : Stores manager cold) {now : Nat} {calls : List CopyCalls}
    {fresh after : Rewritten} {copied : NestedMap Bytes Bytes Record}
    {entries : List (Bytes × Bytes × ColdRef)}
    (indexed : ∀ name key ref, (name, key, ref) ∈ entries →
      manager.index.find name key = some ref)
    (before : Copied manager cold now fresh copied)
    (looped : copyLoop manager.file now calls fresh entries = some after) :
    ∃ all, Copied manager cold now after all ∧
      (∀ name key record, copied.find name key = some record →
        all.find name key = some record) ∧
      ∀ name key ref, (name, key, ref) ∈ entries →
        all.find name key = (unexpiredCold cold now).find name key := by
  induction entries generalizing calls fresh copied with
  | nil =>
      cases looped
      refine ⟨copied, before, fun _ _ _ => id, ?_⟩
      intro name key ref member
      cases member
  | cons entry rest induction =>
      rcases entry with ⟨name, key, ref⟩
      have here := indexed name key ref List.mem_cons_self
      have others : ∀ other within ref, (other, within, ref) ∈ rest →
          manager.index.find other within = some ref := fun other within ref member =>
        indexed other within ref (List.mem_cons_of_mem _ member)
      unfold copyLoop at looped
      dsimp only at looped
      cases read : Transfer.pread manager.file (calls.headD {}).reads ref.off ref.len with
      | none =>
          rw [read] at looped
          cases looped
      | some raw =>
          rw [read] at looped
          dsimp only at looped
          rcases stores.read here read with ⟨record, stored, content, decoded⟩
          have length := (stores.held name key ref record here stored).2.1
          rw [decoded] at looped
          have kept := find_unexpiredCold cold now name key
          rw [stored] at kept
          split at looped
          · -- An expired record is left behind; nothing under its key was copied before.
            rename_i past
            have gone : (unexpiredCold cold now).find name key = none := by
              rw [kept]
              simp [past]
            rcases induction others before looped with ⟨all, complete, grown, covered⟩
            refine ⟨all, complete, grown, ?_⟩
            intro other within ref member
            rcases List.mem_cons.mp member with same | later
            · cases same
              rw [gone]
              cases left : all.find name key with
              | none => rfl
              | some found =>
                  have impossible := complete.among name key found left
                  rw [gone] at impossible
                  cases impossible
            · exact covered other within ref later
          · rename_i live
            have alive : (unexpiredCold cold now).find name key = some record := by
              rw [kept]
              simp [live]
            by_cases failed : (!(Transfer.complete (calls.headD { }).writes raw).done) = true
            · rw [if_pos failed] at looped
              cases looped
            · rw [if_neg failed] at looped
              have done : (Transfer.complete (calls.headD {}).writes raw).done = true := by
                simpa using failed
              rw [Transfer.complete_done done, content, length] at looped
              have next := before.added (stores.ranged name key record stored) alive
              rcases induction others next looped with ⟨all, complete, grown, covered⟩
              refine ⟨all, complete, ?_, ?_⟩
              · intro other within found copiedThere
                refine grown other within found ?_
                rw [NestedMap.find_set]
                by_cases same : other = name ∧ within = key
                · rw [if_pos same]
                  have unique := before.among other within found copiedThere
                  rw [same.1, same.2, alive] at unique
                  exact unique
                · rw [if_neg same]
                  exact copiedThere
              · intro other within ref' member
                rcases List.mem_cons.mp member with same | later
                · cases same
                  rw [alive]
                  refine grown name key record ?_
                  rw [NestedMap.find_set, if_pos ⟨rfl, rfl⟩]
                · exact covered other within ref' later

/-! ## The size of the new file -/

/-- Stretches of a file that lie apart are together not longer than the file. -/
theorem sum_len_le {refs : List ColdRef} {bound : Nat}
    (below : ∀ ref ∈ refs, ref.off + ref.len ≤ bound)
    (apart : refs.Pairwise fun left right =>
      left.off + left.len ≤ right.off ∨ right.off + right.len ≤ left.off) :
    (refs.map ColdRef.len).sum ≤ bound := by
  have places : (refs.flatMap fun ref => List.range' ref.off ref.len).Nodup := by
    rw [List.nodup_flatMap]
    refine ⟨fun ref _ => List.nodup_range', apart.imp ?_⟩
    intro left right separate
    change List.Disjoint _ _
    rw [List.disjoint_left]
    intro place inLeft inRight
    rw [List.mem_range'_1] at inLeft inRight
    omega
  have inside : (refs.flatMap fun ref => List.range' ref.off ref.len) ⊆ List.range bound := by
    intro place member
    rcases List.mem_flatMap.mp member with ⟨ref, among, inRef⟩
    rw [List.mem_range'_1] at inRef
    have limit := below ref among
    rw [List.mem_range]
    omega
  have fits := (List.subperm_of_subset places inside).length_le
  rw [List.length_flatMap, List.length_range] at fits
  simpa using fits

theorem toTriples_pairwise (map : NestedMap Bytes Bytes ν) :
    map.toTriples.Pairwise fun left right => (left.1, left.2.1) ≠ (right.1, right.2.1) := by
  unfold NestedMap.toTriples
  rw [List.pairwise_flatMap]
  constructor
  · rintro ⟨name, entries⟩ _
    rw [List.pairwise_map]
    have keys := FiniteMap.toPairs_nodup_keys entries
    rw [List.Nodup, List.pairwise_map] at keys
    exact keys.imp fun differ same => differ (congrArg Prod.snd same)
  · have names := FiniteMap.toPairs_nodup_keys map
    rw [List.Nodup, List.pairwise_map] at names
    refine names.imp ?_
    intro left right differ first inLeft second inRight same
    rcases List.mem_map.mp inLeft with ⟨leftEntry, _, rfl⟩
    rcases List.mem_map.mp inRight with ⟨rightEntry, _, rfl⟩
    exact differ (Prod.mk.inj same).1

theorem Stores.sum_len_le (stores : Stores manager cold) :
    (manager.index.toTriples.map fun entry => entry.2.2.len).sum ≤ manager.fileBytes := by
  have lengths : (manager.index.toTriples.map fun entry => entry.2.2.len) =
      (manager.index.toTriples.map fun entry => entry.2.2).map ColdRef.len := by
    rw [List.map_map]
    rfl
  rw [lengths]
  refine EvictionManager.sum_len_le ?_ ?_
  · intro ref member
    rcases List.mem_map.mp member with ⟨⟨name, key, found⟩, among, same⟩
    subst same
    have indexed := (NestedMap.mem_toTriples _ name key found).mp among
    rcases stores.found indexed with ⟨record, stored⟩
    exact (stores.held name key found record indexed stored).1
  · rw [List.pairwise_map]
    refine (toTriples_pairwise manager.index).imp_of_mem ?_
    rintro ⟨name, key, ref⟩ ⟨other, within, ref'⟩ left right differ
    exact stores.apart name key ref other within ref'
      ((NestedMap.mem_toTriples _ name key ref).mp left)
      ((NestedMap.mem_toTriples _ other within ref').mp right) differ

theorem copyLoop_size {file : Bytes} {now : Nat} {calls : List CopyCalls} {fresh after : Rewritten}
    {entries : List (Bytes × Bytes × ColdRef)}
    (looped : copyLoop file now calls fresh entries = some after) :
    after.size ≤ fresh.size + (entries.map fun entry => entry.2.2.len).sum := by
  induction entries generalizing calls fresh with
  | nil =>
      cases looped
      exact Nat.le_add_right _ _
  | cons entry rest induction =>
      rcases entry with ⟨name, key, ref⟩
      unfold copyLoop at looped
      dsimp only at looped
      rw [List.map_cons, List.sum_cons]
      change after.size ≤ fresh.size + (ref.len + _)
      cases outcome : Transfer.pread file (calls.headD {}).reads ref.off ref.len with
      | none =>
          simp only [outcome] at looped
          cases looped
      | some candidate =>
          simp only [outcome] at looped
          by_cases expired : (decode candidate).expired now = true
          · rw [if_pos expired] at looped
            have later := induction looped
            omega
          · rw [if_neg expired] at looped
            by_cases failed : (!(Transfer.complete (calls.headD {}).writes candidate).done) = true
            · rw [if_pos failed] at looped
              cases looped
            · rw [if_neg failed] at looped
              have later := induction looped
              dsimp only at later
              omega

/-! ## Compacting -/

/-- A compaction that fails changes nothing; one that succeeds keeps the unexpired records
and gives back the difference of the sizes. -/
theorem Stores.compact (stores : Stores manager cold) (now : Nat) (calls : CompactCalls) :
    EvictionManager.compact manager now calls = (manager, -1) ∨
      Stores (EvictionManager.compact manager now calls).1 (unexpiredCold cold now) ∧
        (EvictionManager.compact manager now calls).2 = (manager.fileBytes : Int) -
          (EvictionManager.compact manager now calls).1.fileBytes ∧
        0 ≤ (EvictionManager.compact manager now calls).2 := by
  unfold EvictionManager.compact
  by_cases broken : (!calls.opened) = true
  · rw [if_pos broken]
    exact .inl rfl
  · rw [if_neg broken]
    cases looped : copyLoop manager.file now calls.copies {} manager.index.toTriples with
    | none => exact .inl rfl
    | some after =>
        dsimp only
        by_cases failed : (!calls.renamed) = true
        · rw [if_pos failed]
          exact .inl rfl
        · rw [if_neg failed]
          right
          have start : Copied manager cold now {} ∅ := by
            refine ⟨⟨le_rfl, fun _ _ => rfl, ?_, ?_, ?_⟩, rfl, ?_⟩
            · intro name key ref record indexed
              cases indexed
            · intro name key record stored
              cases stored
            · intro name key ref other within ref' indexed
              cases indexed
            · intro name key record stored
              cases stored
          rcases copyLoop_copied stores
            (fun name key ref => (NestedMap.mem_toTriples _ name key ref).mp) start looped with
            ⟨all, complete, _, covered⟩
          have same : ∀ name key, (unexpiredCold cold now).find name key = all.find name key := by
            intro name key
            cases indexed : manager.index.find name key with
            | some ref =>
                exact (covered name key ref ((NestedMap.mem_toTriples _ name key ref).mpr
                  indexed)).symm
            | none =>
                have absent := stores.indexed name key
                rw [indexed] at absent
                have nothing : cold.find name key = none :=
                  Option.isSome_eq_false_iff.mp absent.symm |> Option.isNone_iff_eq_none.mp
                have expected := find_unexpiredCold cold now name key
                rw [nothing] at expected
                cases left : all.find name key with
                | none => exact expected
                | some record =>
                    have impossible := complete.among name key record left
                    rw [expected] at impossible
                    cases impossible
          have size := copyLoop_size looped
          have total := stores.sum_len_le
          refine ⟨complete.stores.congr same, rfl, ?_⟩
          dsimp only at size ⊢
          omega

/-! ## Runs -/

/-- A use of cold storage. Before an eviction a room may hold any records. -/
inductive ColdOp
  | evict (name : Bytes) (frequency : Bytes → Nat) (rounds : Nat → Round) (room : Room)
      (metrics : Metrics)
  | take (name key : Bytes) (calls : List Transfer)
  | compact (now : Nat) (calls : CompactCalls)

/-- Cold storage with the records that were evicted and are still there, by room and key. -/
structure ColdState where
  manager : EvictionManager
  cold : NestedMap Bytes Bytes Record := ∅

namespace ColdState

def step (state : ColdState) : ColdOp → ColdState
  | .evict name frequency rounds room metrics =>
      match evictDespisedKeys frequency rounds name (room.keys.entries.length + 1) 0
        { manager := state.manager, room, metrics } with
      | none => state
      | some (after, _) =>
          { manager := after.manager, cold := putAway state.cold name after.evicted }
  | .take name key calls =>
      match take state.manager name key calls with
      | (manager, none) => { state with manager }
      | (manager, some _) => { manager, cold := state.cold.remove name key }
  | .compact now calls =>
      let (manager, reclaimed) := compact state.manager now calls
      { manager
        cold := if reclaimed = -1 then state.cold else unexpiredCold state.cold now }

def run (state : ColdState) (ops : List ColdOp) : ColdState :=
  ops.foldl step state

end ColdState

/-- The records of the room that is evicted from have the types of the source. -/
def ColdOp.Typed : ColdOp → Prop
  | .evict _ _ _ room _ => RangedRoom room
  | _ => True

theorem Stores.step {state : ColdState} (stores : Stores state.manager state.cold) (op : ColdOp)
    (typed : op.Typed) : Stores (state.step op).manager (state.step op).cold := by
  cases op with
  | evict name frequency rounds room metrics =>
      unfold ColdState.step
      dsimp only
      split
      · exact stores
      · rename_i after ok ended
        have start : Stores ({ manager := state.manager, room, metrics } : Evicting).manager
            (putAway state.cold name ({ manager := state.manager, room, metrics } :
              Evicting).evicted) := stores
        exact (start.evicting typed ended).1
  | take name key calls =>
      unfold ColdState.step
      dsimp only
      rcases stores.take name key calls with failed | ⟨record, taken, _, left⟩
      · rw [failed]
        exact stores
      · rcases outcome : EvictionManager.take state.manager name key calls with ⟨manager, result⟩
        rw [outcome] at taken left
        dsimp only at taken left
        subst taken
        exact left
  | compact now calls =>
      unfold ColdState.step
      dsimp only
      rcases stores.compact now calls with failed | ⟨kept, _, reclaimed⟩
      · rw [failed]
        exact stores
      · rw [if_neg (by omega)]
        exact kept

theorem Stores.run {state : ColdState} (stores : Stores state.manager state.cold)
    (ops : List ColdOp) (typed : ∀ op ∈ ops, op.Typed) :
    Stores (state.run ops).manager (state.run ops).cold := by
  induction ops generalizing state with
  | nil => exact stores
  | cons op rest induction =>
      exact induction (stores.step op (typed op List.mem_cons_self))
        fun other member => typed other (List.mem_cons_of_mem _ member)

/-! ## The main result -/

/-- Cold storage when the process starts. -/
def started (maxKeys maxBytes : Nat) (opened : Bool) : ColdState where
  manager := { maxKeysPerRoom := maxKeys, maxBytes, opened }

theorem stores_started (maxKeys maxBytes : Nat) (opened : Bool) :
    Stores (started maxKeys maxBytes opened).manager (started maxKeys maxBytes opened).cold where
  within := le_rfl
  indexed := fun _ _ => rfl
  held := by
    intro name key ref record indexed
    cases indexed
  ranged := by
    intro name key record stored
    cases stored
  apart := by
    intro name key ref other within ref' indexed
    cases indexed

/-- After any run the file has, where the index says, the record that was evicted under each
key, and no two entries overlap; a key that is taken back is given its own record; a
compaction that returns -1 changes nothing, and one that succeeds keeps the unexpired
records and returns the bytes that the file has lost. -/
theorem cold_file_sound (maxKeys maxBytes : Nat) (opened : Bool) (ops : List ColdOp)
    (typed : ∀ op ∈ ops, op.Typed) :
    let state := (started maxKeys maxBytes opened).run ops
    Stores state.manager state.cold ∧
    (∀ name key calls record, (take state.manager name key calls).2 = some record →
      state.cold.find name key = some record) ∧
    ∀ now calls,
      ((compact state.manager now calls).2 = -1 →
        (compact state.manager now calls).1 = state.manager) ∧
      ((compact state.manager now calls).2 ≠ -1 →
        Stores (compact state.manager now calls).1 (unexpiredCold state.cold now) ∧
        (compact state.manager now calls).2 = (state.manager.fileBytes : Int) -
          (compact state.manager now calls).1.fileBytes) := by
  intro state
  have stores : Stores state.manager state.cold :=
    (stores_started maxKeys maxBytes opened).run ops typed
  refine ⟨stores, ?_, ?_⟩
  · intro name key calls record taken
    rcases stores.take name key calls with failed | ⟨found, given, stored, _⟩
    · rw [failed] at taken
      cases taken
    · rw [given] at taken
      cases taken
      exact stored
  · intro now calls
    rcases stores.compact now calls with failed | ⟨kept, reclaimed, nonneg⟩
    · rw [failed]
      exact ⟨fun _ => rfl, fun differ => absurd rfl differ⟩
    · exact ⟨fun minus => by omega, fun _ => ⟨kept, reclaimed⟩⟩

/-- A room with two keys, of which a limit of one key evicts one after a write has stopped
in the middle. -/
def tornEviction : ColdOp :=
  .evict (ascii "r") (fun _ => 0)
    (fun number =>
      { table := ⟨fun keys => [keys], fun keys => by simp⟩
        draws := fun _ => 0
        writes := if number = 0 then [.moved 3, .failed] else [] })
    { keys := AList.insert (ascii "j") { value := ascii "b" }
        (AList.insert (ascii "k") { value := ascii "a" } ∅) } {}

theorem typed_tornEviction : tornEviction.Typed := by
  have ranged : ∀ text : Bytes, Ranged { value := text } := by
    intro text
    exact ⟨by norm_num, by norm_num, by norm_num⟩
  intro key record stored
  rw [FiniteMap.lookup_insert_if] at stored
  by_cases equal : key = ascii "j"
  · rw [if_pos equal] at stored
    cases stored
    exact ranged _
  · rw [if_neg equal] at stored
    rw [FiniteMap.lookup_insert_if] at stored
    by_cases same : key = ascii "k"
    · rw [if_pos same] at stored
      cases stored
      exact ranged _
    · rw [if_neg same] at stored
      cases stored

theorem cold_file_sound_torn :
    let state := (started 1 0 true).run [tornEviction]
    Stores state.manager state.cold :=
  (cold_file_sound 1 0 true [tornEviction] (by
    intro op member
    rw [List.mem_singleton] at member
    subst member
    exact typed_tornEviction)).1

end EvictionManager

end SomniumDB
