import SomniumDB.Abstract.Guard
import SomniumDB.Abstract.Origin
import SomniumDB.Abstract.Shipping

/-! # Versions on their way

A stored version goes to a snapshot file and back, to cold storage and back,
into a rewritten log, through recovery, and to a peer. Several of these entry
points move old timestamps to the hybrid format, also when this has been done
before. -/

namespace SomniumDB

open Bytes FsUtil LastUpdate

/-- Moved to the hybrid format. -/
def Version.normalized (version : Version) : Version :=
  ⟨Hlc.normalize version.ts, version.node⟩

theorem Version.normalized_eq_self_iff (version : Version) :
    version.normalized = version ↔ version.ts = 0 ∨ Hlc.kLegacyLimit ≤ version.ts := by
  rw [← Hlc.normalize_eq_self_iff]
  simp only [normalized, Version.ext_iff, and_true]

/-- The changes that the records of a log stand for. -/
def logChanges (log : List AofRecord) : List Change :=
  log.flatMap AofRecord.changes

namespace Db

/-- One transition takes a version stored for a key to the version found there
afterwards. -/
inductive Carries : Version → Version → Prop
  /-- Hibernation followed by waking. -/
  | rested {db : Db} (wellFormed : db.WellFormed) {name key : Bytes} {before after : Record}
      (awake : db.Awake name) (stored : (db.keysOf name).lookup key = some before)
      (now : Nat) (overBudget : Bool)
      (woken : ((db.hibernate name).activate now name overBudget).2 = true)
      (found : (((db.hibernate name).activate now name overBudget).1.keysOf name).lookup key =
        some after) :
      Carries before.version after.version
  /-- Eviction followed by a lookup. -/
  | reloaded {db : Db} (wellFormed : db.WellFormed) {name key : Bytes} {before after : Record}
      (awake : db.Awake name) (stored : (db.keysOf name).lookup key = some before)
      (victims : List Bytes) (now : Nat)
      (found : ((db.evictDespisedKeys name victims).lookup now name key).2 = some after) :
      Carries before.version after.version
  /-- A rewrite of the log followed by recovery. -/
  | rewritten {db : Db} (wellFormed : db.WellFormed) {place : Place} {before after : Record}
      (stored : db.held place = some before) (now later : Nat)
      (found : (recover db.config (db.dumpState now) db.discardActiveSnapshots.snapshots
        later).held place = some after) :
      Carries before.version after.version
  | rewrittenTomb {db : Db} (wellFormed : db.WellFormed) (tidy : db.node.Tidy)
      (peers : db.config.peerCount ≠ 0) {name key : Bytes} {before after : Version}
      (stored : db.findTomb name key = some before) (now later : Nat)
      (found : (recover db.config (db.dumpState now) db.discardActiveSnapshots.snapshots
        later).findTomb name key = some after) :
      Carries before after
  /-- Recovery from a log in which the write of the key is the last one. -/
  | recovered {log : List AofRecord} (sound : ∀ record ∈ log, record.Sound) {place : Place}
      {before after : Record}
      (stored : last Change.place (logChanges log) place = some (.put place before))
      (config : Config) (snapshots : FiniteMap Bytes (FiniteMap Bytes Record)) (now : Nat)
      (found : (recover config log snapshots now).held place = some after) :
      Carries before.version after.version
  /-- A delete is replayed where there is no tombstone yet. -/
  | recoveredTomb {db : Db} (wellFormed : db.WellFormed) (cold : db.cold = ∅)
      {record : AofRecord} (sound : record.Sound) {name key : Bytes} {before after : Version}
      (stored : .del (name, key) before ∈ record.changes) (unmarked : db.findTomb name key = none)
      (now : Nat) (found : (replayRecord now db record).findTomb name key = some after) :
      Carries before after
  /-- A record of the node is shipped, and the peer applies the command. -/
  | shipped {record : AofRecord} (sound : record.Sound)
      (fits : record.timestampMs ≤ uint64Max) (small : record.nodeId ≤ uint32Max)
      {config : Config} {peer : Db} (sane : Sane config peer) {call : Call}
      (sent : call.args ∈ Replicator.recordCommands record.nodeId record.tokens)
      {applied : AofRecord} (found : applied ∈ peer.appended call) :
      Carries record.version applied.version

variable {db : Db} {name key : Bytes} {now : Nat}

/-- What a room that went to sleep holds. -/
theorem resident_hibernate (awake : db.Awake name) :
    (db.hibernate name).resident name = (db.keysOf name).mapValues Record.normalized := by
  have active : (db.room name).state = .active := awake
  have notSleeping : ¬ (db.room name).state = .sleeping := by
    rw [active]
    simp
  unfold hibernate
  dsimp only
  rw [if_neg notSleeping, resident_eq]
  simp [room, residentOf, keysOf]

theorem wellFormed_hibernate (wellFormed : db.WellFormed) (name : Bytes) :
    (db.hibernate name).WellFormed := by
  rcases hibernate_spec wellFormed name with same | hibernated
  · rw [same]
    exact wellFormed
  · exact hibernated.wellFormed

/-- A record that is in RAM is all that the key has. -/
theorem held_of_ram (awake : db.Awake name) {record : Record}
    (ram : (db.keysOf name).lookup key = some record) : db.held (name, key) = some record := by
  simp only [held, resident_of_awake awake, ram, Option.some_or]

theorem carries_rested (wellFormed : db.WellFormed) {before after : Record}
    (awake : db.Awake name) (stored : (db.keysOf name).lookup key = some before)
    (overBudget : Bool) (woken : ((db.hibernate name).activate now name overBudget).2 = true)
    (found : (((db.hibernate name).activate now name overBudget).1.keysOf name).lookup key =
      some after) : after = before.normalized := by
  rcases activate_spec (wellFormed_hibernate wellFormed name) now name overBudget with
    ⟨_, rearranged, opened, _⟩
  have heldAfter := held_of_ram (opened woken) found
  have same : ((db.hibernate name).activate now name overBudget).1.held (name, key) =
      (db.hibernate name).held (name, key) :=
    congrFun (congrArg Node.held rearranged.node) (name, key)
  rw [same, held, resident_hibernate awake, FiniteMap.lookup_mapValues, stored] at heldAfter
  exact (Option.some.inj heldAfter).symm

theorem carries_reloaded (wellFormed : db.WellFormed) {before after : Record}
    (awake : db.Awake name) (stored : (db.keysOf name).lookup key = some before)
    (victims : List Bytes)
    (found : ((db.evictDespisedKeys name victims).lookup now name key).2 = some after) :
    after = before := by
  have evicted := acts_evictDespisedKeys wellFormed awake victims
  rcases lookup_spec evicted.wellFormed (evicted.frame.awake awake) now key with ⟨_, result, _⟩
  rw [result, evicted.node, Node.touch, Node.hold_held, if_pos rfl] at found
  have heldBefore := held_of_ram awake stored
  exact Option.some.inj ((Option.filter_eq_some_iff.mp found).1.symm.trans heldBefore)

theorem held_of_dumped (wellFormed : db.WellFormed) {place : Place} {record : Record}
    (found : db.dumped place = some record) : db.held place = some record := by
  rcases (dumped_eq_some wellFormed).mp found with ⟨_, resident⟩ | cold
  · simp only [held, resident, Option.some_or]
  · cases ram : (db.resident place.1).lookup place.2 with
    | none => simp only [held, ram, cold, Option.none_or]
    | some other =>
        cases (wellFormed.exclusive _ _ _ ram).symm.trans cold

/-- What is left in the snapshot files once those of active rooms are gone. -/
theorem snapshotHeld_discard {place : Place} {record : Record}
    (found : snapshotHeld db.discardActiveSnapshots.snapshots place = some record) :
    db.held place = some record := by
  unfold snapshotHeld discardActiveSnapshots at found
  dsimp only at found
  rw [FiniteMap.lookup_filter] at found
  obtain ⟨file, kept, looked⟩ : ∃ file, ((db.snapshots.lookup place.1).filter fun _ =>
      decide ((db.room place.1).state = .sleeping)) = some file ∧
        (file.lookup place.2).map Record.normalized = some record := by
    cases present : ((db.snapshots.lookup place.1).filter fun _ =>
        decide ((db.room place.1).state = .sleeping)) with
    | none =>
        rw [present] at found
        cases found
    | some file =>
        rw [present] at found
        exact ⟨file, rfl, found⟩
  rcases Option.filter_eq_some_iff.mp kept with ⟨here, sleeping⟩
  have asleep : (db.room place.1).state = .sleeping := of_decide_eq_true sleeping
  simp only [held, resident_eq, residentOf, asleep, here, Option.map_some, Option.getD_some,
    FiniteMap.lookup_mapValues, looked, Option.some_or]

theorem carries_rewritten (wellFormed : db.WellFormed) {place : Place} {before after : Record}
    (stored : db.held place = some before) (later : Nat)
    (found : (recover db.config (db.dumpState now) db.discardActiveSnapshots.snapshots
      later).held place = some after) : after = before ∨ after = before.normalized := by
  have sound : ∀ record ∈ db.dumpState now, record.Sound := fun _ member => sound_dumpState member
  rcases (recovered_recover db.config (db.dumpState now)
    db.discardActiveSnapshots.snapshots later sound).node with ⟨fresh, _, _, node⟩
  have heldAfter := (congrFun (congrArg Node.held node) place).symm.trans found
  change (Node.replayAll _ _ _).held place = _ at heldAfter
  rw [Node.replayAll_held] at heldAfter
  cases final : last Change.place (logReplayed (db.dumpState now)) place with
  | none =>
      rw [final] at heldAfter
      exact .inl (Option.some.inj ((snapshotHeld_discard heldAfter).symm.trans stored))
  | some change =>
      rcases last_eq_some final with ⟨member, here⟩
      rw [final, Option.map_some, Option.getD_some] at heldAfter
      rw [dumpState, logReplayed_append, List.mem_append] at member
      rcases member with record | tombstone
      · rcases (mem_logReplayed_records wellFormed).mp record with ⟨elsewhere, held, dumped, _, rfl⟩
        obtain rfl : elsewhere = place := here
        cases (held_of_dumped wellFormed dumped).symm.trans stored
        exact .inr (Option.some.inj heldAfter).symm
      · rcases mem_logReplayed_emitTombstones.mp tombstone with ⟨_, _, _, _, rfl⟩
        cases heldAfter

theorem carries_rewrittenTomb (wellFormed : db.WellFormed) (tidy : db.node.Tidy)
    (peers : db.config.peerCount ≠ 0) {before after : Version}
    (stored : db.findTomb name key = some before) (later : Nat)
    (found : (recover db.config (db.dumpState now) db.discardActiveSnapshots.snapshots
      later).findTomb name key = some after) : after = before.normalized := by
  have sound : ∀ record ∈ db.dumpState now, record.Sound := fun _ member => sound_dumpState member
  rcases (recovered_recover db.config (db.dumpState now)
    db.discardActiveSnapshots.snapshots later sound).node with ⟨fresh, _, _, node⟩
  have tomb := (congrFun (congrArg Node.tomb node) (name, key)).symm.trans found
  change (Node.replayAll _ _ _).tomb (name, key) = _ at tomb
  rw [replayed_tombs wellFormed tidy peers _ rfl (name, key) rfl, stored] at tomb
  exact (Option.some.inj tomb).symm

/-- Replay applies the changes of a record as they are or normalized. -/
theorem last_replayed (record : AofRecord) (place : Place) :
    last Change.place record.replayed place = last Change.place record.changes place ∨
      last Change.place record.replayed place =
        (last Change.place record.changes place).map Change.normalized := by
  unfold AofRecord.replayed
  by_cases same : Option.map upper record.args.head? = some (ascii "CRDTMERGE")
  · rw [if_pos same]
    exact .inl rfl
  · rw [if_neg same]
    exact .inr (last_map Change.normalized_place _ _)

theorem last_logReplayed (log : List AofRecord) (place : Place) :
    last Change.place (logReplayed log) place = last Change.place (logChanges log) place ∨
      last Change.place (logReplayed log) place =
        (last Change.place (logChanges log) place).map Change.normalized := by
  induction log with
  | nil => exact .inl rfl
  | cons record rest induction =>
      have replayed : logReplayed (record :: rest) = record.replayed ++ logReplayed rest := rfl
      have changes : logChanges (record :: rest) = record.changes ++ logChanges rest := rfl
      rw [replayed, changes, last_append, last_append]
      cases later : last Change.place (logChanges rest) place with
      | some change =>
          rw [later] at induction
          rcases induction with same | normalized
          · exact .inl (by rw [same, Option.some_or, Option.some_or])
          · exact .inr (by rw [normalized, Option.map_some, Option.some_or, Option.some_or,
              Option.map_some])
      | none =>
          have nothing : last Change.place (logReplayed rest) place = none := by
            rw [later] at induction
            exact induction.elim id id
          rw [nothing, Option.none_or, Option.none_or]
          exact last_replayed record place

theorem carries_recovered {log : List AofRecord} (sound : ∀ record ∈ log, record.Sound)
    {place : Place} {before after : Record}
    (stored : last Change.place (logChanges log) place = some (.put place before))
    (config : Config) (snapshots : FiniteMap Bytes (FiniteMap Bytes Record))
    (found : (recover config log snapshots now).held place = some after) :
    after = before ∨ after = before.normalized := by
  rcases (recovered_recover config log snapshots now sound).node with ⟨fresh, _, _, node⟩
  have heldAfter := (congrFun (congrArg Node.held node) place).symm.trans found
  change (Node.replayAll _ _ _).held place = _ at heldAfter
  rw [Node.replayAll_held] at heldAfter
  rcases last_logReplayed log place with same | normalized
  · rw [same, stored] at heldAfter
    exact .inl (Option.some.inj heldAfter).symm
  · rw [normalized, stored] at heldAfter
    exact .inr (Option.some.inj heldAfter).symm

/-- What `set_tomb` leaves under a place that had nothing. -/
theorem marked_unmarked {config : Config} {watermark : Nat} {version result : Version}
    (found : Node.marked config watermark none version = some result) : result = version := by
  unfold Node.marked at found
  by_cases alone : config.peerCount = 0 ∨ version.ts ≤ watermark
  · rw [if_pos alone] at found
    cases found
  · rw [if_neg alone] at found
    exact (Option.some.inj found).symm

theorem carries_recoveredTomb (wellFormed : db.WellFormed) (cold : db.cold = ∅)
    {record : AofRecord} (sound : record.Sound) {before after : Version}
    (stored : .del (name, key) before ∈ record.changes) (unmarked : db.findTomb name key = none)
    (found : (replayRecord now db record).findTomb name key = some after) :
    after = before ∨ after = before.normalized := by
  have only := AofRecord.changes_of_del stored
  rcases recovering_replayRecord wellFormed cold now sound with ⟨recovering, _⟩
  have tomb := (congrFun (congrArg Node.tomb recovering.node) (name, key)).symm.trans found
  have replayed : record.replayed = [.del (name, key) before] ∨
      record.replayed = [.del (name, key) before.normalized] := by
    unfold AofRecord.replayed
    by_cases merged : Option.map upper record.args.head? = some (ascii "CRDTMERGE")
    · rw [if_pos merged]
      exact .inl only
    · rw [if_neg merged]
      rw [only]
      exact .inr rfl
  have buried : ∀ version, ((db.node.replay db.config (.del (name, key) version)).tomb (name, key)) =
      some after → after = version := by
    intro version marked
    simp only [Node.replay, Node.mark, Node.observe_tomb, Node.bury_tomb, if_true,
      Node.hold_tomb] at marked
    rw [show db.node.tomb (name, key) = none from unmarked] at marked
    exact marked_unmarked marked
  rcases replayed with same | normalized
  · rw [same] at tomb
    exact .inl (buried _ tomb)
  · rw [normalized] at tomb
    exact .inr (buried _ tomb)

theorem stamp_decimal {ts node : Nat} {found : Version} (fits : ts ≤ uint64Max)
    (small : node ≤ uint32Max) (stamped : stamp (decimal ts) (decimal node) = some found) :
    found = ⟨Hlc.normalize ts, node⟩ := by
  have parsedTs := parseU64_decimal ts fits
  have parsedNode := parseU64_decimal node (small.trans (by decide))
  simp only [stamp, parsedTs, parsedNode, if_neg (Nat.not_lt.mpr small)] at stamped
  exact (Option.some.inj stamped).symm

/-- A replicated command brings the version of its change, normalized. -/
theorem incoming_command {change : Change} {found : Version}
    (fits : change.version.ts ≤ uint64Max) (small : change.version.node ≤ uint32Max)
    (brings : incoming change.command = some (key, found)) :
    found = change.version.normalized := by
  have spelled : upper (ascii "CRDTMERGE") = ascii "CRDTMERGE" ∧
      upper (ascii "CRDTDEL") = ascii "CRDTDEL" := by decide
  cases change with
  | put place record =>
      simp only [Change.command, incoming, spelled.1, true_and] at brings
      by_cases same :
          Option.any (fun x => decide (0 ≤ x)) (parseI64 (decimalInt record.expireAt)) = true
      · rw [if_pos same] at brings
        rcases Option.map_eq_some_iff.mp brings with ⟨_, stamped, equal⟩
        cases equal
        exact stamp_decimal fits small stamped
      · rw [if_neg same] at brings
        cases brings
  | del place version =>
      simp only [Change.command, incoming, spelled.2, if_true] at brings
      rcases Option.map_eq_some_iff.mp brings with ⟨_, stamped, equal⟩
      cases equal
      exact stamp_decimal fits small stamped

theorem replicated_command (change : Change) {call : Call} (args : call.args = change.command) :
    ¬ Domestic call := by
  have spelled : upper (ascii "CRDTMERGE") = ascii "CRDTMERGE" ∧
      upper (ascii "CRDTDEL") = ascii "CRDTDEL" := by decide
  intro domestic
  cases change with
  | put place record => exact (domestic (ascii "CRDTMERGE") (by rw [args]; rfl)).1 spelled.1
  | del place version => exact (domestic (ascii "CRDTDEL") (by rw [args]; rfl)).2 spelled.2

theorem carries_shipped {record : AofRecord} (sound : record.Sound)
    (fits : record.timestampMs ≤ uint64Max) (small : record.nodeId ≤ uint32Max)
    {config : Config} {peer : Db} (sane : Sane config peer) {call : Call}
    (sent : call.args ∈ Replicator.recordCommands record.nodeId record.tokens)
    {applied : AofRecord} (found : applied ∈ peer.appended call) :
    applied.version = record.version.normalized := by
  rw [recordCommands_sound sound (small.trans (by decide)), List.mem_map] at sent
  rcases sent with ⟨change, member, args⟩
  have carried := AofRecord.version_of_mem_changes member
  rcases appended_cases sane call found with own | ⟨key, imports⟩
  · exact absurd own.domestic (replicated_command change args.symm)
  · have brings := imports.brings
    rw [← args] at brings
    rw [← carried]
    exact incoming_command (carried ▸ fits) (carried ▸ small) brings

theorem Carries.normalized {version found : Version} (carries : Carries version found) :
    found = version ∨ found = version.normalized := by
  cases carries with
  | rested wellFormed awake stored now overBudget woken found =>
      rw [carries_rested wellFormed awake stored overBudget woken found]
      exact .inr rfl
  | reloaded wellFormed awake stored victims now found =>
      rw [carries_reloaded wellFormed awake stored victims found]
      exact .inl rfl
  | rewritten wellFormed stored now later found =>
      rcases carries_rewritten wellFormed stored later found with rfl | rfl
      · exact .inl rfl
      · exact .inr rfl
  | rewrittenTomb wellFormed tidy peers stored now later found =>
      exact .inr (carries_rewrittenTomb wellFormed tidy peers stored later found)
  | recovered sound stored config snapshots now found =>
      rcases carries_recovered sound stored config snapshots found with rfl | rfl
      · exact .inl rfl
      · exact .inr rfl
  | recoveredTomb wellFormed cold sound stored unmarked now found =>
      exact carries_recoveredTomb wellFormed cold sound stored unmarked found
  | shipped sound fits small sane sent found =>
      exact .inr (carries_shipped sound fits small sane sent found)

theorem carried_eq_self {version found : Version}
    (current : version.ts = 0 ∨ Hlc.kLegacyLimit ≤ version.ts)
    (carried : Relation.ReflTransGen Carries version found) : found = version := by
  have still := version.normalized_eq_self_iff.mpr current
  induction carried with
  | refl => rfl
  | tail _ step induction =>
      rcases step.normalized with same | normalized
      · rw [same, induction]
      · rw [normalized, induction, still]

end Db

open Db

/-- The log of a node that wrote one key under the version. -/
def writeOf (version : Version) : AofRecord :=
  { room := defaultRoom, args := [ascii "SET", ascii "k", ascii "v"]
    timestampMs := version.ts, nodeId := version.node }

theorem carries_writeOf (version : Version) : Carries version version.normalized := by
  have spelled : upper (ascii "SET") = ascii "SET" := by decide
  have other : ascii "SET" ≠ ascii "CRDTMERGE" := by decide
  have changes : (writeOf version).changes =
      [(writeOf version).put (ascii "k") (ascii "v")] := changes_set rfl spelled
  have sound : ∀ record ∈ [writeOf version], record.Sound := by
    intro record member
    rw [List.mem_singleton.mp member]
    exact .inl ⟨spelled, by simp⟩
  have replayed : (writeOf version).replayed =
      [((writeOf version).put (ascii "k") (ascii "v")).normalized] := by
    rw [AofRecord.replayed, changes]
    simp only [writeOf, List.head?_cons, Option.map_some, spelled, Option.some.injEq, other,
      if_false, List.map_cons, List.map_nil]
  have stored : last Change.place (logChanges [writeOf version]) (defaultRoom, ascii "k") =
      some ((writeOf version).put (ascii "k") (ascii "v")) := by
    rw [logChanges, List.flatMap_singleton, changes]
    rfl
  have found : (recover {} [writeOf version] ∅ 0).held (defaultRoom, ascii "k") =
      ((writeOf version).put (ascii "k") (ascii "v")).normalized.result := by
    rcases (recovered_recover {} [writeOf version] ∅ 0 sound).node with ⟨fresh, _, _, node⟩
    refine (congrFun (congrArg Node.held node) (defaultRoom, ascii "k")).trans ?_
    change ((snapshotNode [writeOf version] ∅).replayAll {}
      (logReplayed [writeOf version])).held (defaultRoom, ascii "k") = _
    rw [Node.replayAll_held, logReplayed, List.flatMap_singleton, replayed]
    rfl
  exact .recovered sound stored {} ∅ 0 found

/-- Whatever version is stored for a key: every sequence of hibernations,
evictions, rewrites, recoveries and shipments leaves it as it is, if and only if
its timestamp is zero or at least `2 ^ 47`. Of two such versions the same one
wins after any such sequences. -/
theorem version_preserved_iff (version : Version) :
    ((∀ found, Relation.ReflTransGen Carries version found → found = version) ↔
      version.ts = 0 ∨ Hlc.kLegacyLimit ≤ version.ts) ∧
    ∀ other : Version, (version.ts = 0 ∨ Hlc.kLegacyLimit ≤ version.ts) →
      (other.ts = 0 ∨ Hlc.kLegacyLimit ≤ other.ts) →
      ∀ found otherFound, Relation.ReflTransGen Carries version found →
        Relation.ReflTransGen Carries other otherFound →
        (found < otherFound ↔ version < other) := by
  refine ⟨⟨?_, ?_⟩, ?_⟩
  · intro preserved
    apply version.normalized_eq_self_iff.mp
    exact preserved _ (.single (carries_writeOf version))
  · intro current found carried
    exact carried_eq_self current carried
  · intro other current otherCurrent found otherFound carried otherCarried
    rw [carried_eq_self current carried, carried_eq_self otherCurrent otherCarried]

/-- A merge with an old timestamp in milliseconds, and one that it loses to,
before and after the room has slept. -/
def legacyMerges : List Event :=
  [clientCall 1750000001000 [ascii "ROOM", ascii "r"],
    clientCall 1750000002000 [ascii "CRDTMERGE", ascii "k", ascii "v", ascii "1000", ascii "2"]]

def sleepAndWake : List Event :=
  [clientCall 1750000003000 [ascii "ROOM.HIBERNATE", ascii "r"],
    clientCall 1750000004000 [ascii "ROOM.WAKE", ascii "r"]]

/-- A later merge wins over the stored version, and loses to what waking makes
of it. -/
theorem legacy_version_changes :
    ((fresh {} 1750000000000).run legacyMerges).held (ascii "r", ascii "k") =
        some { value := ascii "v", timestampMs := 1000 * 2 ^ 16, nodeId := 2 } ∧
      ((fresh {} 1750000000000).run (legacyMerges ++ sleepAndWake)).held (ascii "r", ascii "k") =
        some { value := ascii "v", timestampMs := 1000 * 2 ^ 32, nodeId := 2 } ∧
      ((fresh {} 1750000000000).run (legacyMerges ++
        [clientCall 1750000005000
          [ascii "CRDTMERGE", ascii "k", ascii "w", ascii "2000", ascii "3"]])).held
            (ascii "r", ascii "k") =
        some { value := ascii "w", timestampMs := 2000 * 2 ^ 16, nodeId := 3 } ∧
      ((fresh {} 1750000000000).run (legacyMerges ++ sleepAndWake ++
        [clientCall 1750000005000
          [ascii "CRDTMERGE", ascii "k", ascii "w", ascii "2000", ascii "3"]])).held
            (ascii "r", ascii "k") =
        some { value := ascii "v", timestampMs := 1000 * 2 ^ 32, nodeId := 2 } := by
  decide +kernel

end SomniumDB
