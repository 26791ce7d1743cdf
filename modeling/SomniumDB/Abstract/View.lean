import SomniumDB.Abstract.Node

/-! # The logical content of the database

A record lives in RAM, in the snapshot of a sleeping room or in cold storage.
`Db.node` forgets where, and the operations on records in an awake room are
operations on that content. -/

namespace SomniumDB

open Bytes

namespace Db

/-- The records of a room outside cold storage: those in RAM, or those that
waking the room would load. -/
def resident (db : Db) (name : Bytes) : FiniteMap Bytes Record :=
  match (db.room name).state with
  | .active => db.keysOf name
  | .sleeping =>
      ((db.snapshots.lookup name).map (·.mapValues Record.normalized)).getD ∅

def held (db : Db) (place : Place) : Option Record :=
  ((db.resident place.1).lookup place.2).or (db.cold.find place.1 place.2)

def node (db : Db) : Node where
  held := db.held
  tomb place := db.findTomb place.1 place.2
  watermark := db.watermark
  frontier := db.frontier
  clock := db.clock
  log := db.aof

/-- A record is in one medium only, and a sleeping room has none in RAM. -/
structure WellFormed (db : Db) : Prop where
  exclusive : ∀ name key record, (db.resident name).lookup key = some record →
    db.cold.find name key = none
  asleep : ∀ name, (db.room name).state = .sleeping → db.keysOf name = ∅

theorem held_of_cold {db : Db} {name key : Bytes} {record : Record} (wellFormed : db.WellFormed)
    (found : db.cold.find name key = some record) : db.held (name, key) = some record := by
  unfold held
  cases resident : (db.resident name).lookup key with
  | none => rw [Option.none_or, found]
  | some other => cases found.symm.trans (wellFormed.exclusive name key other resident)

/-- What a command on the keys of an awake room leaves alone. -/
structure Frame (db after : Db) : Prop where
  config : after.config = db.config
  clientRooms : after.clientRooms = db.clientRooms
  activeRooms : after.activeRooms = db.activeRooms
  frontiers : after.frontiers = db.frontiers
  snapshots : after.snapshots = db.snapshots
  rewriteChild : after.rewriteChild = db.rewriteChild
  rewriteFrom : after.rewriteFrom = db.rewriteFrom
  registered : ∀ name, name ∈ after.rooms ↔ name ∈ db.rooms
  state : ∀ name, (after.room name).state = (db.room name).state
  asleep : ∀ name, (db.room name).state = .sleeping → after.room name = db.room name

theorem Frame.refl (db : Db) : Frame db db :=
  ⟨rfl, rfl, rfl, rfl, rfl, rfl, rfl, fun _ => .rfl, fun _ => rfl, fun _ _ => rfl⟩

theorem Frame.trans {first second third : Db} (left : Frame first second)
    (right : Frame second third) : Frame first third where
  config := right.config.trans left.config
  clientRooms := right.clientRooms.trans left.clientRooms
  activeRooms := right.activeRooms.trans left.activeRooms
  frontiers := right.frontiers.trans left.frontiers
  snapshots := right.snapshots.trans left.snapshots
  rewriteChild := right.rewriteChild.trans left.rewriteChild
  rewriteFrom := right.rewriteFrom.trans left.rewriteFrom
  registered name := (right.registered name).trans (left.registered name)
  state name := (right.state name).trans (left.state name)
  asleep name sleeping :=
    (right.asleep name ((left.state name).trans sleeping)).trans (left.asleep name sleeping)

/-- `after` is reached from `db` in an awake room and has the content `node`. -/
structure Acts (db after : Db) (node : Node) : Prop where
  node : after.node = node
  wellFormed : after.WellFormed
  frame : Frame db after

theorem Acts.refl {db : Db} (wellFormed : db.WellFormed) : Acts db db db.node :=
  ⟨rfl, wellFormed, Frame.refl db⟩

theorem Acts.trans {first second third : Db} {node node' : Node}
    (left : Acts first second node) (right : Acts second third node') :
    Acts first third node' :=
  ⟨right.node, right.wellFormed, left.frame.trans right.frame⟩

def Awake (db : Db) (name : Bytes) : Prop :=
  (db.room name).state = .active

theorem Frame.awake {db after : Db} {name : Bytes} (frame : Frame db after)
    (awake : db.Awake name) : after.Awake name :=
  (frame.state name).trans awake

theorem Awake.registered {db : Db} {name : Bytes} (awake : db.Awake name) :
    name ∈ db.rooms := by
  by_contra absent
  have missing : db.rooms.lookup name = none := AList.lookup_eq_none.mpr absent
  simp [Awake, room, missing] at awake

/-! ## Records in RAM -/

section PutKeys

variable (db : Db) (name : Bytes) (keys : FiniteMap Bytes Record) (delta count : Int)

theorem room_putKeys (other : Bytes) :
    (db.putKeys name keys delta count).room other =
      if other = name then
        { db.room name with keys, bytes := (db.room name).bytes + delta }
      else db.room other := by
  simp only [room, putKeys, FiniteMap.lookup_insert_if]
  by_cases same : other = name <;> simp [same]

theorem state_putKeys (other : Bytes) :
    ((db.putKeys name keys delta count).room other).state = (db.room other).state := by
  rw [room_putKeys]
  by_cases same : other = name <;> simp [same]

theorem keysOf_putKeys (other : Bytes) :
    (db.putKeys name keys delta count).keysOf other =
      if other = name then keys else db.keysOf other := by
  simp only [keysOf, room_putKeys]
  by_cases same : other = name <;> simp [same]

variable {db name}

theorem resident_of_awake (awake : db.Awake name) :
    db.resident name = db.keysOf name := by
  unfold resident
  rw [awake]

theorem held_of_keysOf {key : Bytes} {record : Record} (awake : db.Awake name)
    (found : (db.keysOf name).lookup key = some record) :
    db.held (name, key) = some record := by
  unfold held
  rw [resident_of_awake awake, found]
  rfl

theorem resident_putKeys (awake : db.Awake name) (other : Bytes) :
    (db.putKeys name keys delta count).resident other =
      if other = name then keys else db.resident other := by
  unfold resident
  rw [state_putKeys, keysOf_putKeys]
  by_cases same : other = name
  · subst other
    rw [if_pos rfl, awake]
    simp
  · simp only [if_neg same]
    rfl

theorem frame_putKeys (awake : db.Awake name) :
    Frame db (db.putKeys name keys delta count) where
  config := rfl
  clientRooms := rfl
  activeRooms := rfl
  frontiers := rfl
  snapshots := rfl
  rewriteChild := rfl
  rewriteFrom := rfl
  registered other := by
    have present := awake.registered
    simp only [putKeys, AList.mem_insert]
    constructor
    · rintro (same | member)
      · rw [same]
        exact present
      · exact member
    · exact .inr
  state := state_putKeys db name keys delta count
  asleep other sleeping := by
    rw [room_putKeys]
    by_cases same : other = name
    · subst other
      rw [awake] at sleeping
      cases sleeping
    · rw [if_neg same]

/-- One key of an awake room changes in RAM, and cold storage does not have it. -/
theorem acts_putKeys (wellFormed : db.WellFormed) (awake : db.Awake name)
    {key : Bytes} {record : Option Record} (cold : db.cold.find name key = none)
    (lookups : ∀ other, keys.lookup other =
      if other = key then record else (db.keysOf name).lookup other) :
    Acts db (db.putKeys name keys delta count)
      (db.node.hold (name, key) record) := by
  refine ⟨?_, ⟨?_, ?_⟩, frame_putKeys keys delta count awake⟩
  · apply Node.ext <;> try rfl
    funext place
    rcases place with ⟨room, other⟩
    change ((((db.putKeys name keys delta count).resident room).lookup other).or
      (db.cold.find room other)) = _
    rw [resident_putKeys keys delta count awake, Node.hold_held]
    simp only [Prod.mk.injEq]
    by_cases sameRoom : room = name
    · subst room
      rw [if_pos rfl, lookups]
      by_cases sameKey : other = key
      · subst other
        simp [cold]
      · rw [if_neg sameKey, if_neg (by simp [sameKey])]
        simp only [node, held, resident_of_awake awake]
    · rw [if_neg sameRoom, if_neg (by simp [sameRoom])]
      rfl
  · intro room other found
    rw [resident_putKeys keys delta count awake]
    change _ → db.cold.find room other = none
    by_cases sameRoom : room = name
    · subst room
      rw [if_pos rfl, lookups]
      by_cases sameKey : other = key
      · subst other
        exact fun _ => cold
      · rw [if_neg sameKey, ← resident_of_awake awake]
        exact wellFormed.exclusive name other found
    · rw [if_neg sameRoom]
      exact wellFormed.exclusive room other found
  · intro other sleeping
    rw [state_putKeys] at sleeping
    rw [keysOf_putKeys]
    by_cases same : other = name
    · subst other
      rw [awake] at sleeping
      cases sleeping
    · rw [if_neg same]
      exact wellFormed.asleep other sleeping

end PutKeys

section Operations

variable {db : Db} {name : Bytes}

theorem acts_insertKey (wellFormed : db.WellFormed) (awake : db.Awake name)
    {key : Bytes} (cold : db.cold.find name key = none) (record : Record)
    (delta count : Int) :
    Acts db (db.putKeys name ((db.keysOf name).insert key record) delta count)
      (db.node.hold (name, key) (some record)) :=
  acts_putKeys _ _ _ wellFormed awake cold fun other =>
    FiniteMap.lookup_insert_if _ key other record

/-- `erase` of a key that cold storage does not have. -/
theorem acts_erase (wellFormed : db.WellFormed) (awake : db.Awake name) {key : Bytes}
    (cold : db.cold.find name key = none) :
    Acts db (db.erase name key) (db.node.hold (name, key) none) := by
  unfold erase
  cases present : (db.keysOf name).lookup key with
  | some record =>
      exact acts_putKeys _ _ _ wellFormed awake cold fun other =>
        FiniteMap.lookup_erase_if _ key other
  | none =>
      have absent : db.node.held (name, key) = none := by
        simp only [node, held, resident_of_awake awake, present, cold, Option.or_none]
      have same := Node.hold_self db.node (name, key)
      rw [absent] at same
      rw [same]
      exact Acts.refl wellFormed

/-- A record leaves cold storage for good. -/
theorem acts_takeCold (wellFormed : db.WellFormed) (awake : db.Awake name) {key : Bytes}
    (ram : (db.keysOf name).lookup key = none) :
    Acts db { db with cold := db.cold.remove name key }
      (db.node.hold (name, key) none) := by
  refine ⟨?_, ⟨?_, wellFormed.asleep⟩, ⟨rfl, rfl, rfl, rfl, rfl, rfl, rfl,
    fun _ => .rfl, fun _ => rfl, fun _ _ => rfl⟩⟩
  · apply Node.ext <;> try rfl
    funext place
    rcases place with ⟨room, other⟩
    change (((db.resident room).lookup other).or
      ((db.cold.remove name key).find room other)) = _
    rw [NestedMap.find_remove, Node.hold_held]
    simp only [Prod.mk.injEq]
    by_cases same : room = name ∧ other = key
    · rcases same with ⟨rfl, rfl⟩
      simp [resident_of_awake awake, ram]
    · rw [if_neg same, if_neg same]
      rfl
  · intro room other record found
    change (db.resident room).lookup other = some record at found
    change (db.cold.remove name key).find room other = none
    rw [NestedMap.find_remove]
    by_cases here : room = name ∧ other = key
    · rw [if_pos here]
    · rw [if_neg here]
      exact wellFormed.exclusive room other record found

/-- A change of the fields that hold no records. -/
theorem acts_rename (after : Db) (wellFormed : db.WellFormed)
    (rooms : after.rooms = db.rooms) (cold : after.cold = db.cold)
    (snapshots : after.snapshots = db.snapshots) (config : after.config = db.config)
    (clientRooms : after.clientRooms = db.clientRooms)
    (activeRooms : after.activeRooms = db.activeRooms)
    (frontiers : after.frontiers = db.frontiers)
    (rewriteChild : after.rewriteChild = db.rewriteChild)
    (rewriteFrom : after.rewriteFrom = db.rewriteFrom) :
    Acts db after
      { held := db.node.held
        tomb := fun place => after.findTomb place.1 place.2
        watermark := after.watermark
        frontier := after.frontier
        clock := after.clock
        log := after.aof } := by
  have sameRoom : ∀ other, after.room other = db.room other := by
    intro other
    simp only [room, rooms]
  have sameResident : ∀ other, after.resident other = db.resident other := by
    intro other
    simp only [resident, keysOf, sameRoom, snapshots]
  refine ⟨?_, ⟨?_, ?_⟩, ⟨config, clientRooms, activeRooms, frontiers, snapshots,
    rewriteChild, rewriteFrom, fun other => by rw [rooms],
    fun other => by rw [sameRoom], fun other _ => sameRoom other⟩⟩
  · apply Node.ext <;> try rfl
    funext place
    simp only [node, held, sameResident, cold]
  · intro other key record found
    rw [sameResident] at found
    rw [cold]
    exact wellFormed.exclusive other key record found
  · intro other sleeping
    rw [sameRoom] at sleeping
    simp only [keysOf, sameRoom]
    exact wellFormed.asleep other sleeping

theorem setTomb_eq (db : Db) (name key : Bytes) (version : Version) :
    ∃ tombstones metrics,
      db.setTomb name key version = { db with tombstones, metrics } := by
  unfold setTomb
  by_cases alone : db.config.peerCount = 0 ∨ version.ts ≤ db.watermark
  · rw [if_pos alone]
    exact ⟨db.tombstones, db.metrics, rfl⟩
  · rw [if_neg alone]
    cases db.findTomb name key with
    | none => exact ⟨_, _, rfl⟩
    | some _ => exact ⟨_, db.metrics, rfl⟩

theorem clearTomb_eq (db : Db) (name key : Bytes) :
    ∃ tombstones metrics,
      db.clearTomb name key = { db with tombstones, metrics } := by
  unfold clearTomb
  cases db.findTomb name key with
  | none => exact ⟨db.tombstones, db.metrics, rfl⟩
  | some _ => exact ⟨_, _, rfl⟩

theorem findTomb_setTomb (db : Db) (name key : Bytes) (version : Version) (place : Place) :
    (db.setTomb name key version).findTomb place.1 place.2 =
      (db.node.mark db.config (name, key) version).tomb place := by
  rcases place with ⟨other, within⟩
  rw [Node.mark, Node.bury_tomb]
  simp only [Prod.mk.injEq]
  change _ = if other = name ∧ within = key then
    Node.marked db.config db.watermark (db.findTomb name key) version
    else db.findTomb other within
  unfold setTomb Node.marked
  by_cases skipped : db.config.peerCount = 0 ∨ version.ts ≤ db.watermark
  · simp only [if_pos skipped]
    by_cases same : other = name ∧ within = key
    · rw [if_pos same, same.1, same.2]
    · rw [if_neg same]
  · simp only [if_neg skipped]
    cases stored : db.findTomb name key with
    | none =>
        simp only [findTomb, NestedMap.find_set]
        rfl
    | some old =>
        simp only [findTomb, NestedMap.find_set]
        rfl

theorem acts_setTomb (wellFormed : db.WellFormed) (name key : Bytes) (version : Version) :
    Acts db (db.setTomb name key version)
      (db.node.mark db.config (name, key) version) := by
  have tombs := findTomb_setTomb db name key version
  rcases setTomb_eq db name key version with ⟨tombstones, metrics, equal⟩
  rw [equal] at tombs ⊢
  have acts := acts_rename { db with tombstones, metrics } wellFormed
    rfl rfl rfl rfl rfl rfl rfl rfl rfl
  refine ⟨acts.node.trans ?_, acts.wellFormed, acts.frame⟩
  apply Node.ext <;> try rfl
  funext place
  exact tombs place

theorem findTomb_clearTomb (db : Db) (name key : Bytes) (place : Place) :
    (db.clearTomb name key).findTomb place.1 place.2 =
      (db.node.bury (name, key) none).tomb place := by
  rcases place with ⟨other, within⟩
  rw [Node.bury_tomb]
  simp only [Prod.mk.injEq]
  unfold clearTomb
  by_cases same : other = name ∧ within = key
  · rcases same with ⟨rfl, rfl⟩
    rw [if_pos ⟨rfl, rfl⟩]
    cases stored : db.findTomb other within with
    | none => exact stored
    | some old => simp [findTomb, NestedMap.find_remove]
  · rw [if_neg same]
    cases stored : db.findTomb name key with
    | none => rfl
    | some old =>
        simp only [findTomb, NestedMap.find_remove, if_neg same]
        rfl

theorem acts_clearTomb (wellFormed : db.WellFormed) (name key : Bytes) :
    Acts db (db.clearTomb name key) (db.node.bury (name, key) none) := by
  have tombs := findTomb_clearTomb db name key
  rcases clearTomb_eq db name key with ⟨tombstones, metrics, equal⟩
  rw [equal] at tombs ⊢
  have acts := acts_rename { db with tombstones, metrics } wellFormed
    rfl rfl rfl rfl rfl rfl rfl rfl rfl
  refine ⟨acts.node.trans ?_, acts.wellFormed, acts.frame⟩
  apply Node.ext <;> try rfl
  funext place
  exact tombs place

theorem acts_append (wellFormed : db.WellFormed) (record : AofRecord) :
    Acts db (db.append record) { db.node with log := db.node.log ++ [record] } :=
  acts_rename _ wellFormed rfl rfl rfl rfl rfl rfl rfl rfl rfl

theorem acts_clock (wellFormed : db.WellFormed) (clock : Nat) :
    Acts db { db with clock } { db.node with clock } :=
  acts_rename _ wellFormed rfl rfl rfl rfl rfl rfl rfl rfl rfl

theorem node_stale (name key : Bytes) (version : Version)
    (record : Option Record) (found : db.node.held (name, key) = record) :
    db.stale name key record version = db.node.stale (name, key) version := by
  unfold stale Node.stale
  rw [found]
  rfl

end Operations

/-! ## Reading a key -/

section Lookup

variable {db : Db} {name : Bytes}

/-- What `lookup` returns is in RAM, and is nowhere when it returns nothing. -/
structure Found (after : Db) (name key : Bytes) (record : Option Record) : Prop where
  ram : (after.keysOf name).lookup key = record
  cold : after.cold.find name key = none

theorem lookup_spec (wellFormed : db.WellFormed) (awake : db.Awake name) (now : Nat)
    (key : Bytes) :
    Acts db (db.lookup now name key).1 (db.node.touch now (name, key)) ∧
      (db.lookup now name key).2 = (db.node.touch now (name, key)).held (name, key) ∧
      Found (db.lookup now name key).1 name key (db.lookup now name key).2 := by
  have heldHere : db.node.held (name, key) =
      ((db.keysOf name).lookup key).or (db.cold.find name key) := by
    simp only [node, held, resident_of_awake awake]
  unfold lookup Node.touch
  rw [Node.hold_held, if_pos rfl, heldHere]
  cases ram : (db.keysOf name).lookup key with
  | some record =>
      have cold : db.cold.find name key = none :=
        wellFormed.exclusive name key record (by rw [resident_of_awake awake, ram])
      cases past : record.expired now with
      | true =>
          have acts := acts_erase wellFormed awake cold
          simp only [Option.some_or, Option.filter_some, past, Bool.not_true,
            Bool.false_eq_true, if_true, if_false]
          refine ⟨acts, trivial, ?_, ?_⟩
          · simp [erase, ram, keysOf_putKeys]
          · simp only [erase, ram]
            exact cold
      | false =>
          have same := Node.hold_self db.node (name, key)
          rw [heldHere, ram, Option.some_or] at same
          simp only [Option.some_or, Option.filter_some, past, Bool.not_false,
            Bool.false_eq_true, if_true, if_false, same]
          exact ⟨Acts.refl wellFormed, trivial, ram, cold⟩
  | none =>
      cases cold : db.cold.find name key with
      | none =>
          have same := Node.hold_self db.node (name, key)
          rw [heldHere, ram, cold, Option.or_none] at same
          simp only [Option.or_none, Option.filter_none, same]
          exact ⟨Acts.refl wellFormed, trivial, ram, cold⟩
      | some record =>
          have taken := acts_takeCold wellFormed awake ram
          have gone : (db.cold.remove name key).find name key = none := by
            simp [NestedMap.find_remove]
          cases past : record.expired now with
          | true =>
              simp only [Option.none_or, Option.filter_some, past, Bool.not_true,
                Bool.false_eq_true, if_true, if_false]
              exact ⟨taken, trivial, ram, gone⟩
          | false =>
              have moved := acts_insertKey taken.wellFormed (taken.frame.awake awake)
                gone record (recordCost key record) 1
              rw [taken.node, Node.hold_hold] at moved
              simp only [Option.none_or, Option.filter_some, past, Bool.not_false,
                Bool.false_eq_true, if_true, if_false]
              refine ⟨taken.trans moved, trivial, ?_, gone⟩
              simp [keysOf_putKeys]

end Lookup

end Db

end SomniumDB
