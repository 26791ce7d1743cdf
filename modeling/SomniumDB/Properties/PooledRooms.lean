import SomniumDB.Abstract.View
import SomniumDB.Core.Persistence
import SomniumDB.Properties.RecordOwnership

/-! # The database over pooled records

Here is what the functions of the database that touch the records of a room ask
of the pool, call by call. Rooms of pointers that follow them hold what the
database holds. -/

namespace SomniumDB

open PointerRooms

namespace Db

variable {db : Db}

/-- The records in RAM. -/
def residents (db : Db) : Residents := fun place =>
  (db.keysOf place.1).lookup place.2

theorem residents_putKeys (db : Db) (name : Bytes) (keys : FiniteMap Bytes Record)
    (delta count : Int) (place : Bytes × Bytes) :
    (db.putKeys name keys delta count).residents place =
      if place.1 = name then keys.lookup place.2 else db.residents place := by
  simp only [residents, keysOf_putKeys]
  by_cases same : place.1 = name
  · simp only [if_pos same]
  · simp only [if_neg same]

/-- One key of a room has changed. -/
theorem residents_update (db : Db) {name key : Bytes} {keys : FiniteMap Bytes Record}
    (delta count : Int) (held : Option Record)
    (changed : ∀ other, keys.lookup other =
      if other = key then held else (db.keysOf name).lookup other) :
    (db.putKeys name keys delta count).residents =
      Function.update db.residents (name, key) held := by
  funext place
  rcases place with ⟨room, other⟩
  rw [residents_putKeys]
  by_cases sameRoom : room = name
  · rw [if_pos sameRoom, changed]
    by_cases sameKey : other = key
    · rw [if_pos sameKey, sameRoom, sameKey, Function.update_self]
    · rw [if_neg sameKey, Function.update_of_ne (by simp [sameKey]), sameRoom]
      rfl
  · rw [if_neg sameRoom, Function.update_of_ne (by simp [sameRoom])]

theorem residents_insert (db : Db) (name key : Bytes) :
    (db.insert name key).residents =
      RecordCall.apply db.residents (.insert name key {}) :=
  residents_update db _ _ _ fun _ => FiniteMap.lookup_insert_if _ _ _ _

theorem residents_assign (db : Db) (name key : Bytes) (old new : Record) :
    (db.assign name key old new).residents =
      RecordCall.apply db.residents (.assign name key new) :=
  residents_update db _ _ _ fun _ => FiniteMap.lookup_insert_if _ _ _ _

theorem residents_erase {name key : Bytes} {record : Record}
    (found : (db.keysOf name).lookup key = some record) :
    (db.erase name key).residents = RecordCall.apply db.residents (.erase name key) := by
  rw [erase, found]
  exact residents_update db _ _ _ fun _ => FiniteMap.lookup_erase_if _ _ _

/-- What `lookup` asks of the pool: an expired record is destroyed, one from
cold storage gets a place. -/
def lookupCalls (db : Db) (now : Nat) (name key : Bytes) : List RecordCall :=
  match (db.keysOf name).lookup key with
  | some record => if record.expired now then [.erase name key] else []
  | none =>
      match db.cold.find name key with
      | none => []
      | some record => if record.expired now then [] else [.insert name key record]

theorem lookupCalls_spec (db : Db) (now : Nat) (name key : Bytes) :
    AllowedRun db.residents (db.lookupCalls now name key) ∧
      (db.lookupCalls now name key).foldl RecordCall.apply db.residents =
        (db.lookup now name key).1.residents := by
  simp only [lookupCalls, lookup]
  cases found : (db.keysOf name).lookup key with
  | some record =>
      have present : (db.residents (name, key)).isSome := by
        simp [residents, found]
      dsimp only
      by_cases expired : record.expired now = true
      · simp only [if_pos expired]
        exact ⟨⟨present, trivial⟩, (residents_erase found).symm⟩
      · simp only [if_neg expired]
        exact ⟨trivial, rfl⟩
  | none =>
      dsimp only
      cases cold : db.cold.find name key with
      | none => exact ⟨trivial, rfl⟩
      | some record =>
          dsimp only
          by_cases expired : record.expired now = true
          · simp only [if_pos expired]
            exact ⟨trivial, rfl⟩
          · simp only [if_neg expired]
            refine ⟨⟨found, trivial⟩, ?_⟩
            have changed := residents_update { db with cold := db.cold.remove name key }
              (recordCost key record) 1 (some record)
              fun other => FiniteMap.lookup_insert_if (db.keysOf name) key other record
            exact changed.symm

/-- What `evict_despised_keys` asks of the pool, victim after victim. -/
def evictCalls (db : Db) (name : Bytes) : List Bytes → List RecordCall
  | [] => []
  | victim :: rest =>
      let keys := db.keysOf name
      if keys.entries = [] ∨ (keys.toPairs.length ≤ db.config.maxKeys ∧ db.fits 0) then []
      else
        match keys.lookup victim with
        | none => db.evictCalls name rest
        | some record =>
            .erase name victim ::
              ({ db with
                  cold := db.cold.set name victim record
                  coldFileBytes := db.coldFileBytes + coldSize record }.putKeys name
                (keys.erase victim) (-recordCost victim record) (-1)).evictCalls name rest

theorem evictCalls_spec (db : Db) (name : Bytes) (victims : List Bytes) :
    AllowedRun db.residents (db.evictCalls name victims) ∧
      (db.evictCalls name victims).foldl RecordCall.apply db.residents =
        (db.evictDespisedKeys name victims).residents := by
  induction victims generalizing db with
  | nil => exact ⟨trivial, rfl⟩
  | cons victim rest induction =>
      simp only [evictCalls, evictDespisedKeys]
      by_cases within : (db.keysOf name).entries = [] ∨
          (db.keysOf name).toPairs.length ≤ db.config.maxKeys ∧ db.fits 0 = true
      · simp only [if_pos within]
        exact ⟨trivial, rfl⟩
      · simp only [if_neg within]
        cases found : (db.keysOf name).lookup victim with
        | none => exact induction db
        | some record =>
            dsimp only
            have present : (db.residents (name, victim)).isSome := by
              simp [residents, found]
            have erased : ({ db with
                  cold := db.cold.set name victim record
                  coldFileBytes := db.coldFileBytes + coldSize record }.putKeys name
                ((db.keysOf name).erase victim) (-recordCost victim record) (-1)).residents =
                Function.update db.residents (name, victim) none :=
              residents_update _ _ _ none
                fun other => FiniteMap.lookup_erase_if (db.keysOf name) victim other
            rcases induction ({ db with
                cold := db.cold.set name victim record
                coldFileBytes := db.coldFileBytes + coldSize record }.putKeys name
              ((db.keysOf name).erase victim) (-recordCost victim record) (-1)) with
              ⟨allowed, folded⟩
            rw [erased] at allowed folded
            exact ⟨⟨present, allowed⟩, folded⟩

/-- A map has under a key what its list of entries has there last. -/
theorem lastEntry_toPairs (map : FiniteMap Bytes Record) (key : Bytes) :
    lastEntry map.toPairs key = map.lookup key := by
  have scan : ∀ (entries : List (Bytes × Record)) (found : Option Record),
      (entries.map Prod.fst).Nodup →
        (key ∉ entries.map Prod.fst → entries.foldl
            (fun found entry => if entry.1 = key then some entry.2 else found) found = found) ∧
          ∀ record, (key, record) ∈ entries → entries.foldl
            (fun found entry => if entry.1 = key then some entry.2 else found) found =
              some record := by
    intro entries
    induction entries with
    | nil =>
        intro found _
        exact ⟨fun _ => rfl, fun record member => by cases member⟩
    | cons entry rest induction =>
        intro found distinct
        rw [List.map_cons, List.nodup_cons] at distinct
        constructor
        · intro absent
          rw [List.map_cons, List.mem_cons, not_or] at absent
          rw [List.foldl_cons, if_neg (Ne.symm absent.1)]
          exact (induction found distinct.2).1 absent.2
        · intro record member
          rw [List.foldl_cons]
          rcases List.mem_cons.mp member with here | later
          · rw [← here]
            rw [← here] at distinct
            rw [if_pos rfl]
            exact (induction (some record) distinct.2).1 distinct.1
          · have different : entry.1 ≠ key := by
              intro same
              rw [same] at distinct
              exact distinct.1 (List.mem_map_of_mem later)
            rw [if_neg different]
            exact (induction found distinct.2).2 record later
  have scanned := scan map.toPairs none map.toPairs_nodup_keys
  cases found : map.lookup key with
  | none =>
      apply scanned.1
      intro member
      rcases List.mem_map.mp member with ⟨entry, inside, same⟩
      have present := (map.mem_toPairs entry.1 entry.2).mp inside
      rw [same, found] at present
      cases present
  | some record => exact scanned.2 record ((map.mem_toPairs key record).mpr found)

/-- The records of a room have been replaced, whatever else has. -/
theorem residents_store (db next : Db) {name : Bytes} {room : Room}
    (rooms : next.rooms = db.rooms.insert name room) (place : Bytes × Bytes) :
    next.residents place =
      if place.1 = name then room.keys.lookup place.2 else db.residents place := by
  simp only [residents, keysOf, Db.room, rooms, FiniteMap.lookup_insert_if]
  by_cases same : place.1 = name
  · simp only [if_pos same]
    rfl
  · simp only [if_neg same]

/-- What `wakeup_room` asks of the pool: nothing without a file. -/
def wakeupCalls (db : Db) (name : Bytes) : List RecordCall :=
  match db.snapshots.lookup name with
  | none => []
  | some file => [.wakeup name (file.mapValues Record.normalized).toPairs true]

theorem wakeupCalls_spec (db : Db) (name : Bytes) :
    AllowedRun db.residents (db.wakeupCalls name) ∧
      ∀ place, (db.wakeupCalls name).foldl RecordCall.apply db.residents place =
        if place.1 = name then (db.wakeupRoom name).lookup place.2 else db.residents place := by
  simp only [wakeupCalls, wakeupRoom]
  cases db.snapshots.lookup name with
  | none =>
      refine ⟨trivial, ?_⟩
      intro place
      by_cases same : place.1 = name
      · rw [if_pos same, ← same]
        rfl
      · rw [if_neg same]
        rfl
  | some file =>
      refine ⟨⟨trivial, trivial⟩, ?_⟩
      intro place
      simp only [List.foldl_cons, List.foldl_nil, RecordCall.apply, true_and, lastEntry_toPairs]

/-- What `activate` asks of the pool: what has been loaded is given back where
memory is short. -/
def activateCalls (db : Db) (name : Bytes) (overBudget : Bool) : List RecordCall :=
  let room := db.room name
  if room.state = .active then []
  else if maxActiveRooms ≤ db.activeRooms ∧ !overBudget then []
  else if !overBudget && !db.fits (Room.keysCost { room with keys := db.wakeupRoom name }) then
    db.wakeupCalls name ++ [.clear name]
  else db.wakeupCalls name

theorem allowedRun_append {held : Residents} {front back : List RecordCall} :
    AllowedRun held (front ++ back) ↔
      AllowedRun held front ∧ AllowedRun (front.foldl RecordCall.apply held) back := by
  induction front generalizing held with
  | nil => simp [AllowedRun]
  | cons call rest induction =>
      simp only [List.cons_append, AllowedRun, List.foldl_cons, induction, and_assoc]

theorem activateCalls_spec (db : Db) (now : Nat) (name : Bytes) (overBudget : Bool) :
    AllowedRun db.residents (db.activateCalls name overBudget) ∧
      (db.activateCalls name overBudget).foldl RecordCall.apply db.residents =
        (db.activate now name overBudget).1.residents := by
  rcases wakeupCalls_spec db name with ⟨allowed, woken⟩
  have touched : db.residents =
      (db.setRoom name { db.room name with lastAccessTime := now }).residents := by
    funext place
    have stored := residents_store db
      (db.setRoom name { db.room name with lastAccessTime := now }) rfl place
    rw [stored]
    by_cases same : place.1 = name
    · rw [if_pos same, ← same]
      rfl
    · rw [if_neg same]
  simp only [activateCalls, activate]
  by_cases awake : (db.room name).state = .active
  · simp only [if_pos awake]
    exact ⟨trivial, touched⟩
  · simp only [if_neg awake]
    by_cases full : maxActiveRooms ≤ db.activeRooms ∧ (!overBudget) = true
    · simp only [if_pos full]
      exact ⟨trivial, touched⟩
    · simp only [if_neg full]
      split
      · rename_i short
        have refused : (!overBudget && !db.fits (Room.keysCost
            { db.room name with lastAccessTime := now, keys := db.wakeupRoom name })) = true :=
          short
        rw [if_pos refused, allowedRun_append, List.foldl_append]
        refine ⟨⟨allowed, trivial, trivial⟩, ?_⟩
        funext place
        rw [residents_store db _ rfl]
        simp only [List.foldl_cons, List.foldl_nil, RecordCall.apply, woken]
        by_cases same : place.1 = name
        · rw [if_pos same, if_pos same]
          rfl
        · rw [if_neg same, if_neg same, if_neg same]
      · rename_i fits
        have admitted : ¬ (!overBudget && !db.fits (Room.keysCost
            { db.room name with lastAccessTime := now, keys := db.wakeupRoom name })) = true :=
          fits
        rw [if_neg admitted]
        refine ⟨allowed, ?_⟩
        funext place
        rw [residents_store db _ rfl, woken]

/-- What `hibernate` asks of the pool. -/
def hibernateCalls (db : Db) (name : Bytes) : List RecordCall :=
  if (db.room name).state = .sleeping then [] else [.clear name]

theorem hibernateCalls_spec (db : Db) (name : Bytes) :
    AllowedRun db.residents (db.hibernateCalls name) ∧
      (db.hibernateCalls name).foldl RecordCall.apply db.residents =
        (db.hibernate name).residents := by
  simp only [hibernateCalls, hibernate]
  by_cases asleep : (db.room name).state = .sleeping
  · simp only [if_pos asleep]
    exact ⟨trivial, rfl⟩
  · simp only [if_neg asleep]
    refine ⟨⟨trivial, trivial⟩, ?_⟩
    funext place
    rw [residents_store db _ rfl]
    rfl

end Db

/-! ## Runs of the database -/

/-- The functions of the database that touch records in RAM. -/
inductive RecordOp
  | lookup (now : Nat) (name key : Bytes)
  | insert (name key : Bytes)
  | assign (name key : Bytes) (old new : Record)
  | erase (name key : Bytes)
  | evict (name : Bytes) (victims : List Bytes)
  | activate (now : Nat) (name : Bytes) (overBudget : Bool)
  | hibernate (name : Bytes)

namespace RecordOp

def onDb (db : Db) : RecordOp → Db
  | .lookup now name key => (db.lookup now name key).1
  | .insert name key => db.insert name key
  | .assign name key old new => db.assign name key old new
  | .erase name key => db.erase name key
  | .evict name victims => db.evictDespisedKeys name victims
  | .activate now name overBudget => (db.activate now name overBudget).1
  | .hibernate name => db.hibernate name

/-- What it asks of the pool. -/
def calls (db : Db) : RecordOp → List RecordCall
  | .lookup now name key => db.lookupCalls now name key
  | .insert name key => [.insert name key {}]
  | .assign name key _ new => [.assign name key new]
  | .erase name key => [.erase name key]
  | .evict name victims => db.evictCalls name victims
  | .activate _ name overBudget => db.activateCalls name overBudget
  | .hibernate name => db.hibernateCalls name

/-- A handler inserts a record after `lookup` has found none, and assigns or
erases one that is there. -/
def Fits (db : Db) : RecordOp → Prop
  | .insert name key => (db.keysOf name).lookup key = none
  | .assign name key _ _ | .erase name key => ((db.keysOf name).lookup key).isSome
  | _ => True

theorem calls_spec (db : Db) {op : RecordOp} (fits : op.Fits db) :
    AllowedRun db.residents (op.calls db) ∧
      (op.calls db).foldl RecordCall.apply db.residents = (op.onDb db).residents := by
  cases op with
  | lookup now name key => exact db.lookupCalls_spec now name key
  | insert name key => exact ⟨⟨fits, trivial⟩, (Db.residents_insert db name key).symm⟩
  | assign name key old new =>
      exact ⟨⟨fits, trivial⟩, (Db.residents_assign db name key old new).symm⟩
  | erase name key =>
      rcases Option.isSome_iff_exists.mp fits with ⟨record, found⟩
      exact ⟨⟨fits, trivial⟩, (Db.residents_erase found).symm⟩
  | evict name victims => exact db.evictCalls_spec name victims
  | activate now name overBudget => exact db.activateCalls_spec now name overBudget
  | hibernate name => exact db.hibernateCalls_spec name

end RecordOp

/-- What a run asks of the pool. -/
def recordCalls (db : Db) : List RecordOp → List RecordCall
  | [] => []
  | op :: rest => op.calls db ++ recordCalls (op.onDb db) rest

def FitsRun (db : Db) : List RecordOp → Prop
  | [] => True
  | op :: rest => op.Fits db ∧ FitsRun (op.onDb db) rest

theorem recordCalls_spec {db : Db} {ops : List RecordOp} (fits : FitsRun db ops) :
    AllowedRun db.residents (recordCalls db ops) ∧
      (recordCalls db ops).foldl RecordCall.apply db.residents =
        (ops.foldl RecordOp.onDb db).residents := by
  induction ops generalizing db with
  | nil => exact ⟨trivial, rfl⟩
  | cons op rest induction =>
      rcases fits with ⟨here, later⟩
      rcases op.calls_spec db here with ⟨allowed, held⟩
      rcases induction later with ⟨others, ends⟩
      rw [recordCalls, Db.allowedRun_append, List.foldl_append, held]
      exact ⟨⟨allowed, others⟩, ends⟩

/-- The database over the pool: for every run of its functions on records in
RAM from an empty node (lookups that drop expired records and fetch cold ones,
insertions, assignments, erasures, evictions, wakes, refused wakes and
hibernations), the pool serves every call without following a pointer that does
not lead to a record; afterwards every key in RAM has a record of its own, no
record of the pool is lost or shared, and the records are those of the rooms. -/
theorem database_records_pooled (config : Config) (now : Nat) {ops : List RecordOp}
    (fits : FitsRun (Db.fresh config now) ops) :
    ∃ state, PointerRooms.run {} (recordCalls (Db.fresh config now) ops) = some state ∧
      state.Sound ∧
      ∀ name key, state.residents (name, key) =
        ((ops.foldl RecordOp.onDb (Db.fresh config now)).keysOf name).lookup key := by
  have start : (Db.fresh config now).residents = fun _ => none := by
    funext place
    simp [Db.residents, Db.fresh, Db.recover, Db.keysOf, Db.room]
  rcases recordCalls_spec fits with ⟨allowed, held⟩
  rw [start] at allowed held
  rcases records_owned allowed with ⟨state, run, sound, same⟩
  refine ⟨state, run, sound, ?_⟩
  intro name key
  rw [same, held]
  rfl

theorem database_records_pooled_sample :
    ∃ state, PointerRooms.run {} (recordCalls (Db.fresh {} 1)
        [.insert [1] [2], .assign [1] [2] {} { value := [3] }, .hibernate [1]]) = some state ∧
      state.Sound ∧
      ∀ name key, state.residents (name, key) =
        (([.insert [1] [2], .assign [1] [2] {} { value := [3] }, .hibernate [1]].foldl
          RecordOp.onDb (Db.fresh {} 1)).keysOf name).lookup key := by
  apply database_records_pooled
  constructor
  · simp [RecordOp.Fits, Db.fresh, Db.recover, Db.keysOf, Db.room]
  constructor
  · have inserted := congrFun (Db.residents_insert (Db.fresh {} 1) [1] [2]) ([1], [2])
    simp only [RecordCall.apply, Function.update_self] at inserted
    simp only [RecordOp.Fits, RecordOp.onDb]
    rw [show (((Db.fresh {} 1).insert [1] [2]).keysOf [1]).lookup [2] = some {} from inserted]
    rfl
  exact ⟨trivial, trivial⟩

end SomniumDB
