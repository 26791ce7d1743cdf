import SomniumDB.Library.LastUpdate
import SomniumDB.Abstract.Invariant

/-! # What a dump stands for

Replaying the records that `dump_state` writes puts back every unexpired record
that it visits and deletes every key that has a tombstone. -/

namespace SomniumDB

open Bytes LastUpdate

theorem logReplayed_append (front back : List AofRecord) :
    logReplayed (front ++ back) = logReplayed front ++ logReplayed back :=
  List.flatMap_append

theorem logReplayed_flatMap {α : Type} (list : List α) (records : α → List AofRecord) :
    logReplayed (list.flatMap records) = list.flatMap fun entry =>
      logReplayed (records entry) :=
  List.flatMap_assoc

theorem mem_logReplayed {log : List AofRecord} {change : Change} :
    change ∈ logReplayed log ↔ ∃ record ∈ log, change ∈ record.replayed :=
  List.mem_flatMap

namespace Node

variable {config : Config} {node : Node} {place : Place}

theorem replay_held (config : Config) (node : Node) (change : Change) (other : Place) :
    (node.replay config change).held other =
      if other = change.place then change.result else node.held other := by
  cases change with
  | put place record => exact hold_held node place (some record) other
  | del place version => exact hold_held node place none other

/-- After replay a place holds what its last change left there. -/
theorem replayAll_held (config : Config) (node : Node) (changes : List Change)
    (place : Place) :
    (node.replayAll config changes).held place =
      ((last Change.place changes place).map Change.result).getD (node.held place) :=
  foldl_get (replay_held config) node changes place

theorem replay_tomb_of_ne (config : Config) (node : Node) {change : Change}
    (other : ∀ version, change ≠ .del place version) :
    (node.replay config change).tomb place = node.tomb place := by
  cases change with
  | put target record => rfl
  | del target version =>
      have elsewhere : place ≠ target := by
        rintro rfl
        exact other version rfl
      simp [replay, mark, bury_tomb, elsewhere]

/-- Only deletes of a place touch its tombstone. -/
theorem replayAll_tomb_of_not_mem {changes : List Change}
    (absent : ∀ version, .del place version ∉ changes) :
    (node.replayAll config changes).tomb place = node.tomb place := by
  induction changes generalizing node with
  | nil => rfl
  | cons change rest induction =>
      have first : ∀ version, change ≠ .del place version := by
        rintro version rfl
        exact absent version List.mem_cons_self
      have later : ∀ version, .del place version ∉ rest :=
        fun version member => absent version (List.mem_cons_of_mem _ member)
      exact (induction later).trans (replay_tomb_of_ne config node first)

theorem replay_tomb_del {version : Version} (peers : config.peerCount ≠ 0)
    (above : node.watermark < version.ts)
    (before : node.tomb place = none ∨ node.tomb place = some version) :
    (node.replay config (.del place version)).tomb place = some version := by
  have kept : ¬ (config.peerCount = 0 ∨ version.ts ≤ node.watermark) := by omega
  simp only [replay, mark, observe_tomb, bury_tomb, hold_tomb, hold_watermark, if_true]
  rw [marked, if_neg kept]
  rcases before with absent | stored
  · simp [absent]
  · simp [stored]

/-- Deletes of a place under one version leave that version as its tombstone. -/
theorem replayAll_tomb {version : Version} {changes : List Change}
    (peers : config.peerCount ≠ 0) (above : node.watermark < version.ts)
    (only : ∀ other, .del place other ∈ changes → other = version)
    (before : (node.tomb place = none ∧ .del place version ∈ changes) ∨
      node.tomb place = some version) :
    (node.replayAll config changes).tomb place = some version := by
  induction changes generalizing node with
  | nil =>
      rcases before with ⟨_, member⟩ | stored
      · cases member
      · exact stored
  | cons change rest induction =>
      have later : ∀ other, .del place other ∈ rest → other = version :=
        fun other member => only other (List.mem_cons_of_mem _ member)
      have still : (node.replay config change).watermark < version.ts := by
        rw [replay_watermark]
        exact above
      apply induction still later
      by_cases here : change = .del place version
      · subst change
        exact .inr (replay_tomb_del peers above (before.imp And.left id))
      · have others : ∀ other, change ≠ .del place other := by
          rintro other rfl
          exact here (by rw [only other List.mem_cons_self])
        rw [replay_tomb_of_ne config node others]
        refine before.imp (fun ⟨absent, member⟩ => ⟨absent, ?_⟩) id
        exact (List.mem_cons.mp member).resolve_left (Ne.symm here)

end Node

namespace Db

variable {db : Db} {now : Nat} {change : Change}

theorem logReplayed_emit (now : Nat) (name key : Bytes) (record : Record) :
    logReplayed (emit now name key record) =
      if record.expired now then [] else [.put (name, key) record.normalized] := by
  have spelled : upper (ascii "SET") = ascii "SET" := by decide
  have other : ascii "SET" ≠ ascii "CRDTMERGE" := by decide
  unfold emit
  by_cases late : record.expired now = true
  · simp only [if_pos late]
    rfl
  · simp only [if_neg late]
    simp only [logReplayed, List.flatMap_cons, List.flatMap_nil, List.append_nil,
      AofRecord.replayed, AofRecord.changes, List.head?_cons, Option.map_some, spelled,
      Option.some.injEq, other, if_false, List.length_cons, List.length_nil, false_and,
      true_and, Nat.reduceLeDiff, or_true, if_true]
    rfl

theorem mem_logReplayed_emit {name key : Bytes} {record : Record} :
    change ∈ logReplayed (emit now name key record) ↔
      record.expired now = false ∧ change = .put (name, key) record.normalized := by
  rw [logReplayed_emit]
  cases record.expired now <;> simp

theorem mem_logReplayed_emitKeys {name : Bytes} {keys : FiniteMap Bytes Record} :
    change ∈ logReplayed (emitKeys now name keys) ↔
      ∃ key record, keys.lookup key = some record ∧ record.expired now = false ∧
        change = .put (name, key) record.normalized := by
  unfold emitKeys
  rw [logReplayed_flatMap]
  simp only [List.mem_flatMap, Prod.exists, FiniteMap.mem_toPairs, mem_logReplayed_emit]

theorem mem_logReplayed_emitCold {cold : NestedMap Bytes Bytes Record} :
    change ∈ logReplayed (emitCold now cold) ↔
      ∃ name key record, cold.find name key = some record ∧ record.expired now = false ∧
        change = .put (name, key) record.normalized := by
  unfold emitCold
  rw [logReplayed_flatMap]
  simp only [List.mem_flatMap, Prod.exists, NestedMap.mem_toTriples, mem_logReplayed_emit]

theorem replayed_tombstone (name key : Bytes) (version : Version) :
    AofRecord.replayed
        { room := name, args := [ascii "DEL", key]
          timestampMs := version.ts, nodeId := version.node } =
      [(Change.del (name, key) version).normalized] := by
  have spelled : upper (ascii "DEL") = ascii "DEL" := by decide
  have others : ascii "DEL" ≠ ascii "CRDTMERGE" ∧ ascii "DEL" ≠ ascii "SET" ∧
      ascii "DEL" ≠ ascii "MSET" := by decide
  simp only [AofRecord.replayed, AofRecord.changes, List.head?_cons, Option.map_some,
    spelled, Option.some.injEq, others, if_false, List.length_cons, List.length_nil,
    false_and, true_and, Nat.reduceLeDiff, or_self, true_or, if_true, List.map_cons,
    List.map_nil]
  rfl

theorem mem_logReplayed_emitTombstones {tombstones : NestedMap Bytes Bytes Version} :
    change ∈ logReplayed (emitTombstones tombstones) ↔
      ∃ name key version, tombstones.find name key = some version ∧
        change = (Change.del (name, key) version).normalized := by
  unfold emitTombstones logReplayed
  rw [List.flatMap_map]
  simp only [replayed_tombstone, List.mem_flatMap, Prod.exists, NestedMap.mem_toTriples,
    List.mem_singleton]

/-- The record that `dump_state` finds under a place: rooms outside the registry
are not visited. -/
def dumped (db : Db) (place : Place) : Option Record :=
  (if place.1 ∈ db.rooms then (db.resident place.1).lookup place.2 else none).or
    (db.cold.find place.1 place.2)

theorem dumped_eq_some (wellFormed : db.WellFormed) {place : Place} {record : Record} :
    db.dumped place = some record ↔
      (place.1 ∈ db.rooms ∧ (db.resident place.1).lookup place.2 = some record) ∨
        db.cold.find place.1 place.2 = some record := by
  unfold dumped
  by_cases registered : place.1 ∈ db.rooms
  · rw [if_pos registered]
    cases found : (db.resident place.1).lookup place.2 with
    | none => simp
    | some held => simp [registered, wellFormed.exclusive _ _ _ found]
  · simp [registered]

/-- The records of a room as `dump_state` reads them. -/
theorem dumpedKeys_eq {name : Bytes} {room : Room}
    (registered : db.rooms.lookup name = some room) :
    (if room.state = .sleeping then
        ((db.snapshots.lookup name).map (·.mapValues Record.normalized)).getD ∅
      else room.keys) = db.resident name := by
  have same : db.room name = room := by
    rw [Db.room, registered]
    rfl
  rw [resident_eq, same, residentOf]
  cases state : room.state <;> simp

theorem mem_emit {name key : Bytes} {held : Record} {record : AofRecord}
    (member : record ∈ emit now name key held) :
    record =
      { room := name, args := [ascii "SET", key, held.value]
        expireAt := held.expireAt
        timestampMs := held.timestampMs
        nodeId := held.nodeId } := by
  unfold emit at member
  by_cases expired : held.expired now = true
  · rw [if_pos expired] at member
    cases member
  · rw [if_neg expired] at member
    exact List.mem_singleton.mp member

/-- What the records of a dump are made from. -/
theorem mem_dumpState (wellFormed : db.WellFormed) {record : AofRecord}
    (member : record ∈ db.dumpState now) :
    (∃ name key held, db.dumped (name, key) = some held ∧
        record =
          { room := name, args := [ascii "SET", key, held.value]
            expireAt := held.expireAt
            timestampMs := held.timestampMs
            nodeId := held.nodeId }) ∨
      ∃ name key version, db.findTomb name key = some version ∧
        record =
          { room := name, args := [ascii "DEL", key]
            timestampMs := version.ts
            nodeId := version.node } := by
  unfold dumpState at member
  rcases List.mem_append.mp member with records | buried
  · left
    rcases List.mem_append.mp records with inRooms | inCold
    · rcases List.mem_flatMap.mp inRooms with ⟨⟨name, room⟩, listed, emitted⟩
      have registered := (FiniteMap.mem_toPairs _ _ _).mp listed
      have present : name ∈ db.rooms := AList.lookup_isSome.mp (by rw [registered]; rfl)
      rw [dumpedKeys_eq registered] at emitted
      rcases List.mem_flatMap.mp emitted with ⟨⟨key, held⟩, found, written⟩
      have here := (FiniteMap.mem_toPairs _ _ _).mp found
      exact ⟨name, key, held, (dumped_eq_some wellFormed).mpr (.inl ⟨present, here⟩),
        mem_emit written⟩
    · rcases List.mem_flatMap.mp inCold with ⟨⟨name, key, held⟩, found, written⟩
      have here := (NestedMap.mem_toTriples _ _ _ _).mp found
      exact ⟨name, key, held, (dumped_eq_some wellFormed).mpr (.inr here), mem_emit written⟩
  · rcases List.mem_map.mp buried with ⟨⟨name, key, version⟩, found, equal⟩
    exact .inr ⟨name, key, version, (NestedMap.mem_toTriples _ _ _ _).mp found, equal.symm⟩

/-- The part of a dump that writes records. -/
theorem mem_logReplayed_records (wellFormed : db.WellFormed) :
    change ∈ logReplayed ((db.rooms.toPairs.flatMap fun entry =>
        emitKeys now entry.1
          (if entry.2.state = .sleeping then
            ((db.snapshots.lookup entry.1).map (·.mapValues Record.normalized)).getD ∅
          else entry.2.keys)) ++ emitCold now db.cold) ↔
      ∃ place record, db.dumped place = some record ∧ record.expired now = false ∧
        change = .put place record.normalized := by
  rw [logReplayed_append, List.mem_append, logReplayed_flatMap, List.mem_flatMap]
  constructor
  · rintro (⟨⟨name, room⟩, member, emitted⟩ | emitted)
    · have registered := (FiniteMap.mem_toPairs _ _ _).mp member
      rw [dumpedKeys_eq registered] at emitted
      rcases mem_logReplayed_emitKeys.mp emitted with ⟨key, record, found, current, equal⟩
      have present : name ∈ db.rooms := AList.lookup_isSome.mp (by rw [registered]; rfl)
      exact ⟨(name, key), record, (dumped_eq_some wellFormed).mpr (.inl ⟨present, found⟩),
        current, equal⟩
    · rcases mem_logReplayed_emitCold.mp emitted with ⟨name, key, record, found, current, equal⟩
      exact ⟨(name, key), record, (dumped_eq_some wellFormed).mpr (.inr found), current, equal⟩
  · rintro ⟨⟨name, key⟩, record, found, current, rfl⟩
    rcases (dumped_eq_some wellFormed).mp found with ⟨present, resident⟩ | cold
    · left
      rcases Option.isSome_iff_exists.mp (AList.lookup_isSome.mpr present) with ⟨room, registered⟩
      refine ⟨(name, room), (FiniteMap.mem_toPairs _ _ _).mpr registered, ?_⟩
      rw [dumpedKeys_eq registered]
      exact mem_logReplayed_emitKeys.mpr ⟨key, record, resident, current, rfl⟩
    · exact .inr (mem_logReplayed_emitCold.mpr ⟨name, key, record, cold, current, rfl⟩)

/-- The tombstones are written as one delete of each place. -/
theorem last_emitTombstones (tombstones : NestedMap Bytes Bytes Version) (place : Place) :
    last Change.place (logReplayed (emitTombstones tombstones)) place =
      (tombstones.find place.1 place.2).map fun version =>
        (Change.del place version).normalized := by
  cases buried : tombstones.find place.1 place.2 with
  | some version =>
      apply last_eq_of_mem
      · exact mem_logReplayed_emitTombstones.mpr ⟨place.1, place.2, version, buried, rfl⟩
      · exact Change.normalized_place _
      · intro other member here
        rcases mem_logReplayed_emitTombstones.mp member with ⟨name, key, stored, found, rfl⟩
        cases here
        cases buried.symm.trans found
        rfl
  | none =>
      apply last_eq_none_iff.mpr
      intro change member here
      rcases mem_logReplayed_emitTombstones.mp member with ⟨name, key, version, found, rfl⟩
      cases here
      cases buried.symm.trans found

/-- What a dump replays to: a place with a tombstone holds nothing, any other
place the unexpired record that was found there. -/
theorem replayed_dumpState (wellFormed : db.WellFormed) (node : Node) (place : Place)
    (empty : node.held place = none) :
    (node.replayAll db.config (logReplayed (db.dumpState now))).held place =
      if (db.findTomb place.1 place.2).isSome then none
      else ((db.dumped place).filter fun record => !record.expired now).map
        Record.normalized := by
  have tombs : last Change.place (logReplayed (emitTombstones db.tombstones)) place =
      (db.findTomb place.1 place.2).map fun version => (Change.del place version).normalized :=
    last_emitTombstones db.tombstones place
  rw [Node.replayAll_held, empty, dumpState, logReplayed_append, last_append, tombs]
  cases db.findTomb place.1 place.2 with
  | some version => rfl
  | none =>
      rw [Option.map_none, Option.none_or]
      cases shown : (db.dumped place).filter fun record => !record.expired now with
      | some record =>
          rcases Option.filter_eq_some_iff.mp shown with ⟨found, current⟩
          have put := (mem_logReplayed_records wellFormed).mpr
            ⟨place, record, found, by simpa using current, rfl⟩
          have here : (Change.put place record.normalized).place = place := rfl
          rw [last_eq_of_mem put here]
          · rfl
          · intro other member samePlace
            rcases (mem_logReplayed_records wellFormed).mp member with
              ⟨elsewhere, held, sameFound, _, rfl⟩
            obtain rfl : elsewhere = place := samePlace
            cases found.symm.trans sameFound
            rfl
      | none =>
          rw [last_eq_none_iff.mpr]
          · rfl
          · intro change member here
            rcases (mem_logReplayed_records wellFormed).mp member with
              ⟨elsewhere, held, found, current, rfl⟩
            obtain rfl : elsewhere = place := here
            simp [found, current] at shown

/-- The tombstones that a dump replays to. -/
theorem replayed_tombs (wellFormed : db.WellFormed) (tidy : db.node.Tidy)
    (peers : db.config.peerCount ≠ 0) (node : Node) (watermark : node.watermark = 0)
    (place : Place) (empty : node.tomb place = none) :
    (node.replayAll db.config (logReplayed (db.dumpState now))).tomb place =
      (db.findTomb place.1 place.2).map fun version =>
        ⟨Hlc.normalize version.ts, version.node⟩ := by
  have deletes : ∀ version, .del place version ∈ logReplayed (db.dumpState now) ↔
      ∃ stored, db.findTomb place.1 place.2 = some stored ∧
        version = ⟨Hlc.normalize stored.ts, stored.node⟩ := by
    intro version
    rw [dumpState, logReplayed_append, List.mem_append, mem_logReplayed_records wellFormed,
      mem_logReplayed_emitTombstones]
    constructor
    · rintro (⟨_, _, _, _, equal⟩ | ⟨name, key, stored, found, equal⟩)
      · cases equal
      · cases equal
        exact ⟨stored, found, rfl⟩
    · rintro ⟨stored, found, rfl⟩
      exact .inr ⟨place.1, place.2, stored, found, rfl⟩
  cases buried : db.findTomb place.1 place.2 with
  | none =>
      rw [Node.replayAll_tomb_of_not_mem, empty]
      · rfl
      · intro version member
        rcases (deletes version).mp member with ⟨stored, found, _⟩
        rw [buried] at found
        cases found
  | some stored =>
      have positive := tidy.above place stored buried
      have le := Hlc.le_normalize stored.ts
      apply Node.replayAll_tomb peers
      · rw [watermark]
        exact (Nat.zero_le _).trans_lt (positive.trans_le le)
      · intro other member
        rcases (deletes other).mp member with ⟨found, sameTomb, equal⟩
        rw [buried] at sameTomb
        cases sameTomb
        exact equal
      · exact .inl ⟨empty, (deletes _).mpr ⟨stored, buried, rfl⟩⟩

end Db

end SomniumDB
