import SomniumDB.Abstract.Dispatch

/-! # Recovery

Replaying a log over the snapshot files applies the changes of its records in
order, each room being woken under its first record. -/

namespace SomniumDB

open Bytes FsUtil

namespace Node

def replayAll (config : Config) (node : Node) (changes : List Change) : Node :=
  changes.foldl (replay config) node

theorem replayAll_append (config : Config) (node : Node) (front back : List Change) :
    node.replayAll config (front ++ back) =
      (node.replayAll config front).replayAll config back :=
  List.foldl_append

end Node

/-- The changes of a whole log, as replay applies them. -/
def logReplayed (log : List AofRecord) : List Change :=
  log.flatMap AofRecord.replayed

namespace Db

variable {db : Db} {now : Nat}

/-- A stage of recovery with the content `node`. -/
structure Recovering (db after : Db) (node : Node) : Prop where
  node : after.node = node
  wellFormed : after.WellFormed
  cold : after.cold = ∅
  config : after.config = db.config
  clientRooms : after.clientRooms = db.clientRooms
  snapshots : after.snapshots = db.snapshots
  rewriteChild : after.rewriteChild = db.rewriteChild
  registered : ∀ name, name ∈ db.rooms → name ∈ after.rooms

theorem Recovering.trans {second third : Db} {middle final : Node}
    (left : Recovering db second middle) (right : Recovering second third final) :
    Recovering db third final where
  node := right.node
  wellFormed := right.wellFormed
  cold := right.cold
  config := right.config.trans left.config
  clientRooms := right.clientRooms.trans left.clientRooms
  snapshots := right.snapshots.trans left.snapshots
  rewriteChild := right.rewriteChild.trans left.rewriteChild
  registered name member := right.registered name (left.registered name member)

theorem Acts.recovering {after : Db} {node : Node} (acts : Acts db after node)
    (cold : after.cold = ∅) : Recovering db after node :=
  ⟨acts.node, acts.wellFormed, cold, acts.frame.config, acts.frame.clientRooms,
    acts.frame.snapshots, acts.frame.rewriteChild, fun name => (acts.frame.registered name).mpr⟩

theorem find_of_cold_empty (cold : db.cold = ∅) (name key : Bytes) :
    db.cold.find name key = none := by
  rw [cold]
  exact NestedMap.find_empty name key

theorem acts_observe (wellFormed : db.WellFormed) (ts : Nat) :
    Acts db { db with clock := Hlc.observe db.clock ts } (db.node.observe ts) :=
  acts_clock wellFormed _

/-- `put`: the record under the key is created if needed and overwritten. -/
theorem recovering_replayPut (wellFormed : db.WellFormed) (cold : db.cold = ∅)
    {record : AofRecord} (awake : db.Awake record.room) (key value : Bytes) (ts node : Nat) :
    Acts db (db.replayPut record key value ts node)
        ((db.node.hold (record.room, key) (some
          { value, expireAt := record.expireAt, timestampMs := Hlc.normalize ts
            nodeId := node })).observe (Hlc.normalize ts)) ∧
      (db.replayPut record key value ts node).cold = ∅ := by
  have absent := find_of_cold_empty cold record.room key
  unfold replayPut
  dsimp only
  generalize newEq : Record.mk value record.expireAt (Hlc.normalize ts) node = new
  have timestamp : Hlc.normalize ts = new.timestampMs := by rw [← newEq]
  rw [timestamp]
  cases (db.keysOf record.room).lookup key with
  | some found =>
      have written := acts_insertKey wellFormed awake absent new
        ((new.value.length : Int) - found.value.length) 0
      have observed := acts_observe written.wellFormed new.timestampMs
      rw [written.node] at observed
      exact ⟨written.trans observed, cold⟩
  | none =>
      have inserted := acts_insertKey wellFormed awake absent {} (recordCost key {}) 1
      have written := acts_insertKey inserted.wellFormed (inserted.frame.awake awake) absent
        new ((new.value.length : Int) - ({} : Record).value.length) 0
      rw [inserted.node, Node.hold_hold] at written
      have observed := acts_observe written.wellFormed new.timestampMs
      rw [written.node] at observed
      exact ⟨(inserted.trans written).trans observed, cold⟩

theorem recovering_replayDelete (wellFormed : db.WellFormed) (cold : db.cold = ∅)
    {record : AofRecord} (awake : db.Awake record.room) (key : Bytes) :
    Acts db (db.replayDelete record key)
        (db.node.replay db.config
          (Change.del (record.room, key) record.version).normalized) ∧
      (db.replayDelete record key).cold = ∅ := by
  have absent := find_of_cold_empty cold record.room key
  have erased := acts_erase wellFormed awake absent
  have marked := acts_setTomb erased.wellFormed record.room key
    ⟨Hlc.normalize record.timestampMs, record.nodeId⟩
  have observed := acts_observe marked.wellFormed (Hlc.normalize record.timestampMs)
  rw [marked.node, erased.node, erased.frame.config] at observed
  refine ⟨(erased.trans marked).trans observed, ?_⟩
  have coldErased : (db.erase record.room key).cold = db.cold := by
    unfold erase
    cases (db.keysOf record.room).lookup key with
    | none => rfl
    | some _ => rfl
  rcases setTomb_eq (db.erase record.room key) record.room
    key ⟨Hlc.normalize record.timestampMs, record.nodeId⟩ with ⟨tombstones, metrics, equal⟩
  unfold replayDelete
  dsimp only
  rw [equal]
  exact coldErased.trans cold

/-- The pairs of an `MSET` are put one after the other. -/
theorem recovering_pairs (wellFormed : db.WellFormed) (cold : db.cold = ∅)
    {record : AofRecord} (awake : db.Awake record.room) (pairs : List (Bytes × Bytes)) :
    Acts db (pairs.foldl (fun state pair => state.replayPut record pair.1 pair.2
        record.timestampMs record.nodeId) db)
        (db.node.replayAll db.config
          (pairs.map fun pair => (record.put pair.1 pair.2).normalized)) ∧
      (pairs.foldl (fun state pair => state.replayPut record pair.1 pair.2
        record.timestampMs record.nodeId) db).cold = ∅ := by
  induction pairs generalizing db with
  | nil => exact ⟨Acts.refl wellFormed, cold⟩
  | cons pair rest induction =>
      rcases recovering_replayPut wellFormed cold awake pair.1 pair.2
        record.timestampMs record.nodeId with ⟨put, coldPut⟩
      rcases induction put.wellFormed coldPut (put.frame.awake awake) with ⟨looped, coldLooped⟩
      rw [put.node, put.frame.config] at looped
      exact ⟨put.trans looped, coldLooped⟩

/-- A sound record is replayed as its changes. -/
theorem recovering_replayCommand (wellFormed : db.WellFormed) (cold : db.cold = ∅)
    {record : AofRecord} (awake : db.Awake record.room) (sound : record.Sound)
    {first : Bytes} (head : record.args.head? = some first) :
    Acts db (db.replayCommand record (upper first))
        (db.node.replayAll db.config record.replayed) ∧
      (db.replayCommand record (upper first)).cold = ∅ := by
  rcases List.head?_eq_some_iff.mp head with ⟨rest, args⟩
  unfold AofRecord.Sound at sound
  rw [args] at sound
  dsimp only at sound
  unfold AofRecord.replayed AofRecord.changes replayCommand
  rw [args]
  rcases sound with ⟨command, enough⟩ | command | ⟨command, enough⟩ | ⟨command, enough⟩ |
    ⟨command, enough, ts, parsedTs, normalized, parsedNode, small⟩
  · have other : ascii "SET" ≠ ascii "CRDTMERGE" := by decide
    simp only [command, other, enough, List.length_cons, List.head?_cons, Option.map_some,
      Option.some.injEq, false_and, and_true, if_false, if_true, or_true,
      Nat.reduceLeDiff, List.getElem?_cons_succ, show 3 ≤ rest.length + 1 by omega]
    exact recovering_replayPut wellFormed cold awake _ _ _ _
  · have others : ascii "MSET" ≠ ascii "CRDTMERGE" ∧ ascii "MSET" ≠ ascii "SET" := by decide
    simp only [command, others.1, others.2, List.head?_cons, Option.map_some,
      Option.some.injEq, false_and, or_self, if_false, if_true, List.tail_cons, List.map_map]
    exact recovering_pairs wellFormed cold awake _
  · have others : ascii "DEL" ≠ ascii "CRDTMERGE" ∧ ascii "DEL" ≠ ascii "SET" ∧
        ascii "DEL" ≠ ascii "MSET" ∧ ascii "DEL" ≠ ascii "EXPIRE" ∧
        ascii "DEL" ≠ ascii "PEXPIRE" ∧ ascii "DEL" ≠ ascii "PERSIST" := by decide
    simp only [command, others, enough, List.length_cons, List.head?_cons, Option.map_some,
      Option.some.injEq, false_and, true_and, true_or, or_self, if_false, if_true,
      List.getElem?_cons_succ, show 2 ≤ rest.length + 1 by omega]
    exact recovering_replayDelete wellFormed cold awake _
  · have others : ascii "CRDTDEL" ≠ ascii "CRDTMERGE" ∧ ascii "CRDTDEL" ≠ ascii "SET" ∧
        ascii "CRDTDEL" ≠ ascii "MSET" ∧ ascii "CRDTDEL" ≠ ascii "EXPIRE" ∧
        ascii "CRDTDEL" ≠ ascii "PEXPIRE" ∧ ascii "CRDTDEL" ≠ ascii "PERSIST" ∧
        ascii "CRDTDEL" ≠ ascii "DEL" := by decide
    simp only [command, others, enough, List.length_cons, List.head?_cons, Option.map_some,
      Option.some.injEq, false_and, true_and, or_true, or_self, if_false, if_true,
      List.getElem?_cons_succ, show 4 ≤ rest.length + 1 by omega]
    exact recovering_replayDelete wellFormed cold awake _
  · simp only [command, enough, List.length_cons, List.head?_cons, Option.map_some,
      true_and, true_or, if_true, List.getElem?_cons_succ, parsedTs, parsedNode,
      if_neg (Nat.not_lt.mpr small), show 5 ≤ rest.length + 1 by omega]
    have put := recovering_replayPut wellFormed cold awake (rest[0]?.getD [])
      (rest[1]?.getD []) ts record.nodeId
    rw [normalized] at put
    exact put

/-- Recovery goes over the budget, so that every room wakes. -/
theorem activate_overBudget (db : Db) (now : Nat) (name : Bytes) :
    (db.activate now name true).2 = true := by
  unfold activate
  dsimp only
  by_cases awake : (db.room name).state = .active
  · rw [if_pos awake]
  · rw [if_neg awake]
    simp

/-- The record is replayed as these changes, once its room is awake. -/
def Replays (record : AofRecord) (changes : List Change) : Prop :=
  ∃ first rest, record.args = first :: rest ∧
    ∀ opened : Db, opened.WellFormed → opened.cold = ∅ → opened.Awake record.room →
      Acts opened (opened.replayCommand record (upper first))
          (opened.node.replayAll opened.config changes) ∧
        (opened.replayCommand record (upper first)).cold = ∅

theorem replays_of_sound {record : AofRecord} (sound : record.Sound) :
    Replays record record.replayed := by
  obtain ⟨first, rest, args⟩ : ∃ first rest, record.args = first :: rest := by
    unfold AofRecord.Sound at sound
    split at sound
    · exact sound.elim
    · rename_i first rest equal
      exact ⟨first, rest, equal⟩
  refine ⟨first, rest, args, fun opened wellFormed cold awake => ?_⟩
  exact recovering_replayCommand wellFormed cold awake sound (by rw [args]; rfl)

/-- One record of the log: its room is woken, then it is applied. -/
theorem recovering_replays (wellFormed : db.WellFormed) (cold : db.cold = ∅) (now : Nat)
    {record : AofRecord} {changes : List Change} (replays : Replays record changes) :
    Recovering db (replayRecord now db record) (db.node.replayAll db.config changes) ∧
      record.room ∈ (replayRecord now db record).rooms := by
  rcases replays with ⟨first, rest, args, applied⟩
  rcases findRoom_spec wellFormed now record.room with ⟨found, foundSame, _⟩
  rcases activate_spec found.wellFormed now record.room true with ⟨kept, keptSame, woken, _⟩
  have awake := woken (activate_overBudget _ now record.room)
  have rearranged := foundSame.trans keptSame
  have opened := found.trans kept
  have coldOpened : ((db.findRoom record.room).activate now record.room true).1.cold = ∅ := by
    rw [rearranged.fields]
    exact cold
  rcases applied _ opened.wellFormed coldOpened awake with ⟨acts, coldAfter⟩
  have equal : replayRecord now db record =
      ((db.findRoom record.room).activate now record.room true).1.replayCommand record
        (upper first) := by
    unfold replayRecord
    rw [args]
  rw [equal]
  rw [rearranged.node, opened.config] at acts
  have clients : ((db.findRoom record.room).activate now record.room true).1.clientRooms =
      db.clientRooms := by
    rw [rearranged.fields]
  refine ⟨⟨acts.node, acts.wellFormed, coldAfter, acts.frame.config.trans opened.config,
    acts.frame.clientRooms.trans clients, acts.frame.snapshots.trans opened.snapshots,
    acts.frame.rewriteChild.trans opened.rewriteChild, ?_⟩,
    (acts.frame.registered _).mpr awake.registered⟩
  intro name member
  exact (acts.frame.registered name).mpr (opened.registered name member)

theorem recovering_replayRecord (wellFormed : db.WellFormed) (cold : db.cold = ∅)
    (now : Nat) {record : AofRecord} (sound : record.Sound) :
    Recovering db (replayRecord now db record)
        (db.node.replayAll db.config record.replayed) ∧
      record.room ∈ (replayRecord now db record).rooms :=
  recovering_replays wellFormed cold now (replays_of_sound sound)

/-- A whole log, given by what its records are made from. -/
theorem recovering_replayLog {α : Type} (wellFormed : db.WellFormed) (cold : db.cold = ∅)
    (now : Nat) (entries : List α) (recordOf : α → AofRecord) {changesOf : α → List Change}
    (replays : ∀ entry ∈ entries, Replays (recordOf entry) (changesOf entry)) :
    Recovering db ((entries.map recordOf).foldl (replayRecord now) db)
        (db.node.replayAll db.config (entries.flatMap changesOf)) ∧
      ∀ entry ∈ entries,
        (recordOf entry).room ∈ ((entries.map recordOf).foldl (replayRecord now) db).rooms := by
  induction entries generalizing db with
  | nil =>
      exact ⟨⟨rfl, wellFormed, cold, rfl, rfl, rfl, rfl, fun _ => id⟩, by simp⟩
  | cons entry rest induction =>
      rcases recovering_replays wellFormed cold now (replays entry List.mem_cons_self) with
        ⟨first, present⟩
      rcases induction first.wellFormed first.cold
        (fun other member => replays other (List.mem_cons_of_mem _ member)) with
        ⟨looped, registered⟩
      rw [first.node, first.config, ← Node.replayAll_append] at looped
      refine ⟨first.trans looped, ?_⟩
      intro other member
      rcases List.mem_cons.mp member with rfl | later
      · exact looped.registered _ present
      · exact registered other later

/-- The content of the snapshot files alone. -/
def snapshotHeld (snapshots : FiniteMap Bytes (FiniteMap Bytes Record)) (place : Place) :
    Option Record :=
  ((snapshots.lookup place.1).bind fun file => file.lookup place.2).map Record.normalized

/-- The content from which a log is replayed. -/
def snapshotNode (aof : List AofRecord)
    (snapshots : FiniteMap Bytes (FiniteMap Bytes Record)) : Node where
  held := snapshotHeld snapshots
  tomb := fun _ => none
  watermark := 0
  frontier := 0
  clock := 0
  log := aof

/-- What recovery yields. -/
structure Recovered (config : Config) (aof : List AofRecord)
    (snapshots : FiniteMap Bytes (FiniteMap Bytes Record)) (now : Nat) (db : Db) : Prop where
  node : ∃ fresh, ((snapshotNode aof snapshots).replayAll config (logReplayed aof)).clock <
      fresh ∧ now * 2 ^ 16 ≤ fresh ∧
    db.node = { (snapshotNode aof snapshots).replayAll config (logReplayed aof) with
      frontier := fresh, clock := fresh }
  wellFormed : db.WellFormed
  config : db.config = config
  clientRooms : db.clientRooms = ∅
  snapshots : db.snapshots = snapshots
  rewriteChild : db.rewriteChild = none
  registered : ∀ record ∈ aof, record.room ∈ db.rooms
  cold : db.cold = ∅

theorem recovered_of_replayed {config : Config} {aof : List AofRecord}
    {snapshots : FiniteMap Bytes (FiniteMap Bytes Record)} {start replayed : Db}
    (recovering : Recovering start replayed
      ((snapshotNode aof snapshots).replayAll start.config (logReplayed aof)))
    (registered : ∀ record ∈ aof, record.room ∈ replayed.rooms)
    (fields : start = { config, aof, snapshots }) {fresh : Nat}
    (above : replayed.clock < fresh) (current : now * 2 ^ 16 ≤ fresh) :
    Recovered config aof snapshots now { replayed with frontier := fresh, clock := fresh } := by
  rcases recovering with
    ⟨node, wellFormed, cold, sameConfig, sameClients, sameSnapshots, sameChild, _⟩
  rw [fields] at node sameConfig sameClients sameSnapshots sameChild
  have clock : replayed.clock =
      ((snapshotNode aof snapshots).replayAll config (logReplayed aof)).clock :=
    congrArg Node.clock node
  refine ⟨⟨fresh, clock ▸ above, current, ?_⟩, ⟨wellFormed.exclusive, wellFormed.asleep⟩,
    sameConfig, sameClients, sameSnapshots, sameChild, registered, cold⟩
  rw [← node]
  rfl

theorem recovered_recover (config : Config) (aof : List AofRecord)
    (snapshots : FiniteMap Bytes (FiniteMap Bytes Record)) (now : Nat)
    (sound : ∀ record ∈ aof, record.Sound) :
    Recovered config aof snapshots now (recover config aof snapshots now) := by
  have empty : ({ config, aof, snapshots } : Db).WellFormed := by
    refine ⟨fun name key record _ => NestedMap.find_empty name key, ?_⟩
    intro name _
    rfl
  rcases recovering_replayLog empty rfl now aof id
    fun record member => replays_of_sound (sound record member) with ⟨replayed, registered⟩
  rw [List.map_id] at replayed registered
  have start : ({ config, aof, snapshots } : Db).node = snapshotNode aof snapshots := by
    apply Node.ext <;> try rfl
    funext place
    change ((({ config, aof, snapshots } : Db).resident place.1).lookup place.2).or
      (NestedMap.find ∅ place.1 place.2) = _
    rw [NestedMap.find_empty, Option.or_none, resident_eq]
    change AList.lookup place.2 (Option.getD _ _) =
      ((snapshots.lookup place.1).bind fun file => file.lookup place.2).map _
    cases snapshots.lookup place.1 with
    | none => rfl
    | some file => exact FiniteMap.lookup_mapValues Record.normalized file place.2
  rw [start] at replayed
  exact recovered_of_replayed replayed registered rfl (Hlc.last_lt_next _ now 0)
    (Hlc.now_le_next _ now 0)

end Db

end SomniumDB
