import SomniumDB.Abstract.Origin
import SomniumDB.Properties.DumpRoundTrip
import SomniumDB.Storage.AofRecoveryCodec

/-! # Logs in the old formats

A log without a header is either a list of commands, all for the default room, or a list
of commands with their rooms. Recovery takes the second token of the first record for a
command name wherever it is one, also where it is the key of a command of the first kind. -/

namespace SomniumDB

open Bytes FsUtil Resp AofRecord AofRecovery

/-! ## The logs and what they mean -/

/-- The commands that the old formats know, with their arguments as written. -/
inductive LegacyCommand
  | set (key value : Bytes)
  | del (key : Bytes)
  | merge (key value ts node : Bytes)

namespace LegacyCommand

def tokens : LegacyCommand → List Bytes
  | set key value => [ascii "SET", key, value]
  | del key => [ascii "DEL", key]
  | merge key value ts node => [ascii "CRDTMERGE", key, value, ts, node]

def key : LegacyCommand → Bytes
  | set key _ => key
  | del key => key
  | merge key _ _ _ => key

/-- What the command does to the keys of its room. A plain write has no version of its own,
and nothing has a deadline. -/
def apply (held : Place → Option Record) (room : Bytes) : LegacyCommand → Place → Option Record
  | set key value => Function.update held (room, key) (some { value, nodeId := 1 })
  | del key => Function.update held (room, key) none
  | merge key value ts node =>
      match Db.stamp ts node with
      | none => held
      | some version =>
          Function.update held (room, key)
            (some { value, timestampMs := version.ts, nodeId := version.node })

/-- The record that the command writes. -/
def written : LegacyCommand → Option Record
  | set _ value => some { value, nodeId := 1 }
  | del _ => none
  | merge _ value ts node =>
      (Db.stamp ts node).map fun version =>
        { value, timestampMs := version.ts, nodeId := version.node }

end LegacyCommand

/-- Commands with their rooms. -/
abbrev LegacyLog := List (Bytes × LegacyCommand)

namespace LegacyLog

/-- The commands applied in order to an empty database. -/
def state (log : LegacyLog) : Place → Option Record :=
  log.foldl (fun held entry => entry.2.apply held entry.1) fun _ => none

/-- The file in which every record begins with its room. -/
def writtenV2 (log : LegacyLog) : Bytes :=
  log.flatMap fun entry => encode (entry.1 :: entry.2.tokens)

/-- No record is left with a timestamp in the old format, which is normalized once more by
every start after the migration. -/
def Settled (log : LegacyLog) : Prop :=
  ∀ place record, log.state place = some record →
    record.timestampMs = 0 ∨ Hlc.kLegacyLimit ≤ record.timestampMs

/-- Every argument is within the limit of the parser. -/
def Small (log : LegacyLog) : Prop :=
  ∀ entry ∈ log, ∀ token ∈ entry.1 :: entry.2.tokens, token.length ≤ kMaxBulk

end LegacyLog

/-- The file that knows no rooms. -/
def writtenV1 (commands : List LegacyCommand) : Bytes :=
  commands.flatMap fun command => encode command.tokens

/-- The log that commands without a room are. -/
def inDefault (commands : List LegacyCommand) : LegacyLog :=
  commands.map fun command => (Db.defaultRoom, command)

/-! ## Starting on a log file -/

/-- `rewrite_aof`, all of whose calls succeed. -/
def rewriteCalls (records : List AofRecord) : List AofCall :=
  .startRewrite true aofHeader.length ::
    (records.map fun record => .appendRewrite record record.encodeRecord.length) ++
      [.commitRewrite {}]

/-- The log file once the database has been constructed: rewritten if it has to be, and
with a header if it was empty. -/
def constructedFile (recovery : Recovery) (dump : List AofRecord) : Option Bytes :=
  (({ file := recovery.file } : AofManager).run
    ((if recovery.needsRewrite then rewriteCalls dump else []) ++ [.openFile {}])).file

/-- The database that the constructor makes of a log file, without snapshot files. -/
def constructed (config : Config) (file : Option Bytes) (now : Nat) : Db :=
  Db.recover config (AofRecovery.recover file).replayed ∅ now

/-- The database of the next start `later`, on the file that the migration has left, which
takes its own reading of the clock. -/
def reopened (config : Config) (now dumped later : Nat) (file : Bytes) : Db :=
  constructed config (constructedFile (AofRecovery.recover (some file))
    ((constructed config (some file) now).dumpState dumped)) later

/-- Starting at `now` on the file gives the state that the log means, in the rooms that it
names, and so does starting again `later`, in the rooms that are left with a record. -/
structure Restores (config : Config) (now dumped later : Nat) (file : Bytes) (log : LegacyLog) :
    Prop where
  rooms : ∀ name, name ∈ (constructed config (some file) now).rooms ↔
    ∃ entry ∈ log, entry.1 = name
  state : ∀ place, (constructed config (some file) now).held place = log.state place
  again : ∀ place, (reopened config now dumped later file).held place = log.state place
  left : ∀ name, name ∈ (reopened config now dumped later file).rooms ↔
    ∃ key, log.state (name, key) ≠ none

/-! ## Replay -/

namespace LegacyCommand

/-- The changes that replay makes of a command. -/
def changes (room : Bytes) : LegacyCommand → List Change
  | set key value => [.put (room, key) { value, nodeId := 1 }]
  | del key => [.del (room, key) ⟨0, 1⟩]
  | merge key value ts node =>
      ((Db.stamp ts node).map fun version =>
        Change.put (room, key)
          { value, timestampMs := version.ts, nodeId := version.node }).toList

variable {config : Config} {node : Node}

theorem replayAll_changes (room : Bytes) (command : LegacyCommand) :
    (node.replayAll config (command.changes room)).held = command.apply node.held room := by
  cases command with
  | set key value => rfl
  | del key => rfl
  | merge key value ts nodeArg =>
      rw [changes, apply]
      cases Db.stamp ts nodeArg <;> rfl

/-- A delete without a version leaves no tombstone. -/
theorem tomb_replayAll_changes (room : Bytes) (command : LegacyCommand) :
    (node.replayAll config (command.changes room)).tomb = node.tomb := by
  cases command with
  | set key value => rfl
  | del key =>
      have stored : Node.marked config node.watermark (node.tomb (room, key)) ⟨0, 1⟩ =
          node.tomb (room, key) :=
        if_pos (.inr (Nat.zero_le _))
      change Function.update node.tomb (room, key)
        (Node.marked config node.watermark (node.tomb (room, key)) ⟨0, 1⟩) = node.tomb
      rw [stored]
      exact Function.update_eq_self _ _
  | merge key value ts nodeArg =>
      rw [changes]
      cases Db.stamp ts nodeArg <;> rfl

/-- The record that recovery makes of a command. -/
def record (room : Bytes) (command : LegacyCommand) : AofRecord :=
  { room, args := command.tokens }

theorem replayed_set (room key value : Bytes) :
    ((set key value).record room).replayed = (set key value).changes room := by
  have emitted := Db.logReplayed_emit 0 room key { value, nodeId := 1 }
  have lasting : ({ value, nodeId := 1 } : Record).expired 0 = false := rfl
  rw [lasting, if_neg Bool.false_ne_true] at emitted
  unfold Db.emit at emitted
  have current : ({ value, nodeId := 1 } : Record).normalized = { value, nodeId := 1 } := by
    rw [Record.normalized, (Hlc.normalize_eq_self_iff 0).mpr (.inl rfl)]
  rw [lasting, if_neg Bool.false_ne_true, logReplayed, List.flatMap_singleton, current]
    at emitted
  exact emitted

theorem replayed_del (room key : Bytes) :
    ((del key).record room).replayed = (del key).changes room :=
  Db.replayed_tombstone room key ⟨0, 1⟩

/-- A merge is replayed with the version that its arguments give. -/
theorem replayCommand_merge (db : Db) (room key value ts node : Bytes) :
    db.replayCommand ((merge key value ts node).record room) (ascii "CRDTMERGE") =
      match parseU64 ts, parseU64 node with
      | some stamp, some nodeId =>
          if uint32Max < nodeId then db
          else db.replayPut ((merge key value ts node).record room) key value stamp nodeId
      | _, _ => db := by
  unfold Db.replayCommand
  dsimp only [record, tokens]
  rw [if_pos ⟨rfl, Nat.le_refl 5⟩]
  rfl

theorem replays (room : Bytes) (command : LegacyCommand) :
    Db.Replays (command.record room) (command.changes room) := by
  cases command with
  | set key value =>
      rw [← replayed_set]
      exact Db.replays_of_sound (.inl ⟨by decide, Nat.le_refl 2⟩)
  | del key =>
      rw [← replayed_del]
      exact Db.replays_of_sound (.inr (.inr (.inl ⟨by decide, Nat.le_refl 1⟩)))
  | merge key value ts node =>
      refine ⟨ascii "CRDTMERGE", [key, value, ts, node], rfl,
        fun opened wellFormed cold awake => ?_⟩
      have spelled : upper (ascii "CRDTMERGE") = ascii "CRDTMERGE" := by decide
      rw [spelled, replayCommand_merge, changes, Db.stamp]
      cases parseU64 ts with
      | none => exact ⟨Db.Acts.refl wellFormed, cold⟩
      | some stamp =>
          cases parseU64 node with
          | none => exact ⟨Db.Acts.refl wellFormed, cold⟩
          | some nodeId =>
              dsimp only
              by_cases large : uint32Max < nodeId
              · simp only [if_pos large]
                exact ⟨Db.Acts.refl wellFormed, cold⟩
              · simp only [if_neg large]
                exact Db.recovering_replayPut wellFormed cold awake key value stamp nodeId

end LegacyCommand

namespace LegacyLog

/-- The records that recovery makes of a log it reads as it was written. -/
def records (log : LegacyLog) : List AofRecord :=
  log.map fun entry => entry.2.record entry.1

def changes (log : LegacyLog) : List Change :=
  log.flatMap fun entry => entry.2.changes entry.1

theorem held_replayAll (config : Config) (node : Node) (log : LegacyLog) :
    (node.replayAll config log.changes).held =
      log.foldl (fun held entry => entry.2.apply held entry.1) node.held := by
  induction log generalizing node with
  | nil => rfl
  | cons entry rest induction =>
      rw [changes, List.flatMap_cons, Node.replayAll_append, List.foldl_cons,
        ← LegacyCommand.replayAll_changes entry.1 entry.2]
      exact induction _

theorem tomb_replayAll (config : Config) (node : Node) (log : LegacyLog) :
    (node.replayAll config log.changes).tomb = node.tomb := by
  induction log generalizing node with
  | nil => rfl
  | cons entry rest induction =>
      rw [changes, List.flatMap_cons, Node.replayAll_append]
      exact (induction _).trans (LegacyCommand.tomb_replayAll_changes entry.1 entry.2)

end LegacyLog

namespace Db

variable {db : Db} {now : Nat} {name : Bytes}

/-- Recovery that replays the records of an old log. -/
structure Migrated (config : Config) (log : LegacyLog) (db : Db) : Prop where
  wellFormed : db.WellFormed
  config : db.config = config
  cold : db.cold = ∅
  snapshots : db.snapshots = ∅
  held : ∀ place, db.held place = log.state place
  tomb : ∀ place : Place, db.findTomb place.1 place.2 = none

theorem migrated_recover (config : Config) (log : LegacyLog) (now : Nat) :
    Migrated config log (recover config log.records ∅ now) := by
  have empty : ({ config, aof := log.records, snapshots := ∅ } : Db).WellFormed :=
    ⟨fun name key record _ => NestedMap.find_empty name key, fun name _ => rfl⟩
  rcases recovering_replayLog empty rfl now log
    (fun entry => entry.2.record entry.1) fun entry _ => entry.2.replays entry.1 with ⟨replayed, -⟩
  have held := congrArg Node.held replayed.node
  have tomb := congrArg Node.tomb replayed.node
  rw [show log.flatMap (fun entry => entry.2.changes entry.1) = log.changes from rfl,
    LegacyLog.held_replayAll] at held
  rw [show log.flatMap (fun entry => entry.2.changes entry.1) = log.changes from rfl,
    LegacyLog.tomb_replayAll] at tomb
  have nothing : ({ config, aof := log.records, snapshots := ∅ } : Db).held = fun _ => none := by
    funext place
    exact (Option.none_or).trans (NestedMap.find_empty place.1 place.2)
  have start : ({ config, aof := log.records, snapshots := ∅ } : Db).node.held = fun _ => none :=
    nothing
  rw [start] at held
  refine ⟨⟨replayed.wellFormed.exclusive, replayed.wellFormed.asleep⟩, replayed.config,
    replayed.cold, replayed.snapshots, fun place => congrFun held place, fun place => ?_⟩
  exact (congrFun tomb place).trans (NestedMap.find_empty place.1 place.2)

/-! ## The registry -/

/-- The registered rooms are the same. -/
def SameRooms (db after : Db) : Prop :=
  ∀ other, other ∈ after.rooms ↔ other ∈ db.rooms

theorem SameRooms.trans {second third : Db} (left : SameRooms db second)
    (right : SameRooms second third) : SameRooms db third :=
  fun other => (right other).trans (left other)

/-- A room that is replaced is registered. -/
theorem sameRooms_insert {after : Db} {room : Room} (present : name ∈ db.rooms)
    (rooms : after.rooms = db.rooms.insert name room) : SameRooms db after := by
  intro other
  rw [rooms, AList.mem_insert]
  refine ⟨fun either => ?_, .inr⟩
  rcases either with rfl | member
  · exact present
  · exact member

theorem sameRooms_erase (present : name ∈ db.rooms) (key : Bytes) :
    SameRooms db (db.erase name key) := by
  unfold erase
  cases (db.keysOf name).lookup key with
  | none => exact fun _ => .rfl
  | some _ => exact sameRooms_insert present rfl

theorem sameRooms_replayPut {record : AofRecord} (present : record.room ∈ db.rooms)
    (key value : Bytes) (ts node : Nat) :
    SameRooms db (db.replayPut record key value ts node) := by
  unfold replayPut
  cases (db.keysOf record.room).lookup key with
  | some found => exact sameRooms_insert present rfl
  | none =>
      have inserted : SameRooms db (db.insert record.room key) := sameRooms_insert present rfl
      exact inserted.trans (sameRooms_insert ((inserted record.room).mpr present) rfl)

theorem sameRooms_pairs {record : AofRecord} (present : record.room ∈ db.rooms)
    (pairs : List (Bytes × Bytes)) :
    SameRooms db (pairs.foldl (fun state pair =>
      state.replayPut record pair.1 pair.2 record.timestampMs record.nodeId) db) := by
  induction pairs generalizing db with
  | nil => exact fun _ => .rfl
  | cons pair rest induction =>
      have first := sameRooms_replayPut present pair.1 pair.2 record.timestampMs record.nodeId
      exact first.trans (induction ((first record.room).mpr present))

theorem sameRooms_replayDelete {record : AofRecord} (present : record.room ∈ db.rooms)
    (key : Bytes) : SameRooms db (db.replayDelete record key) := by
  rcases setTomb_eq (db.erase record.room key) record.room key
    ⟨Hlc.normalize record.timestampMs, record.nodeId⟩ with ⟨tombstones, metrics, marked⟩
  unfold replayDelete
  dsimp only
  rw [marked]
  exact sameRooms_erase present key

theorem sameRooms_replayCommand {record : AofRecord} (present : record.room ∈ db.rooms)
    (command : Bytes) : SameRooms db (db.replayCommand record command) := by
  unfold replayCommand
  dsimp only
  by_cases merges : command = ascii "CRDTMERGE" ∧ 5 ≤ record.args.length
  · rw [if_pos merges]
    split
    · split
      · exact fun _ => .rfl
      · exact sameRooms_replayPut present _ _ _ _
    · exact fun _ => .rfl
  · rw [if_neg merges]
    by_cases sets : command = ascii "SET" ∧ 3 ≤ record.args.length
    · rw [if_pos sets]
      exact sameRooms_replayPut present _ _ _ _
    · rw [if_neg sets]
      by_cases isMset : command = ascii "MSET"
      · rw [if_pos isMset]
        exact sameRooms_pairs present _
      · rw [if_neg isMset]
        by_cases expires : (command = ascii "EXPIRE" ∨ command = ascii "PEXPIRE" ∨
            command = ascii "PERSIST") ∧ 2 ≤ record.args.length
        · rw [if_pos expires]
          unfold replayDeadline
          cases (db.keysOf record.room).lookup (record.args[1]?.getD []) with
          | none => exact fun _ => .rfl
          | some _ => exact sameRooms_insert present rfl
        · rw [if_neg expires]
          by_cases deletes : command = ascii "DEL" ∧ 2 ≤ record.args.length ∨
              command = ascii "CRDTDEL" ∧ 4 ≤ record.args.length
          · rw [if_pos deletes]
            exact sameRooms_replayDelete present _
          · rw [if_neg deletes]
            exact fun _ => .rfl

theorem mem_activate (db : Db) (now : Nat) (name : Bytes) (overBudget : Bool) (other : Bytes) :
    other ∈ (db.activate now name overBudget).1.rooms ↔ other = name ∨ other ∈ db.rooms := by
  unfold activate setRoom
  dsimp only
  by_cases awake : (db.room name).state = .active
  · rw [if_pos awake]
    exact AList.mem_insert _
  · rw [if_neg awake]
    by_cases full : maxActiveRooms ≤ db.activeRooms ∧ (!overBudget) = true
    · rw [if_pos full]
      exact AList.mem_insert _
    · rw [if_neg full]
      split <;> exact AList.mem_insert _

/-- A record that names a command registers its room, whatever the command is. -/
theorem mem_replayRecord (db : Db) (now : Nat) {record : AofRecord} (given : record.args ≠ [])
    (other : Bytes) :
    other ∈ (replayRecord now db record).rooms ↔ other = record.room ∨ other ∈ db.rooms := by
  unfold replayRecord
  cases args : record.args with
  | nil => exact absurd args given
  | cons first rest =>
      dsimp only
      have present := (mem_activate (db.findRoom record.room) now record.room true
        record.room).mpr (.inl rfl)
      rw [sameRooms_replayCommand present (upper first) other, mem_activate, mem_findRoom]
      tauto

theorem mem_recover (config : Config) (log : List AofRecord) (now : Nat)
    (given : ∀ record ∈ log, record.args ≠ []) (other : Bytes) :
    other ∈ (recover config log ∅ now).rooms ↔ ∃ record ∈ log, record.room = other := by
  have replayed : ∀ db : Db, other ∈ (log.foldl (replayRecord now) db).rooms ↔
      other ∈ db.rooms ∨ ∃ record ∈ log, record.room = other := by
    induction log with
    | nil => simp
    | cons record rest induction =>
        intro db
        rw [List.foldl_cons, induction fun later member => given later
            (List.mem_cons_of_mem _ member), mem_replayRecord db now (given record
            List.mem_cons_self)]
        simp only [List.mem_cons, exists_eq_or_imp, eq_comm (a := other)]
        tauto
  have fields : (recover config log ∅ now).rooms =
      (log.foldl (replayRecord now) { config, aof := log, snapshots := ∅ }).rooms := rfl
  have nothing : other ∉ ({ config, aof := log, snapshots := ∅ } : Db).rooms :=
    AList.notMem_empty other
  rw [fields, replayed]
  simp [nothing]

end Db

/-! ## The file -/

namespace AofRecovery

/-- A log whose first record is taken for one in an old format is read in that format. -/
theorem recover_legacy {fmt : Fmt} {log : List AofRecord} {first : AofRecord}
    (tokensOf : AofRecord → List Bytes) (begins : log.head? = some first)
    (small : ∀ record ∈ log, ∀ token ∈ tokensOf record, token.length ≤ kMaxBulk)
    (few : ∀ record ∈ log, (tokensOf record).length ≤ kMaxArgs)
    (built : ∀ record ∈ log, buildRecord fmt (tokensOf record) = some record)
    (detected : detect (tokensOf first) = .legacy fmt) :
    recover (some (log.flatMap fun record => encode (tokensOf record))) =
      { replayed := log
        file := some (log.flatMap fun record => encode (tokensOf record))
        needsRewrite := true } := by
  have encodes : ∀ record ∈ log, Encodes (encode (tokensOf record)) (tokensOf record) :=
    fun record member => encodes_encode (small record member) (few record member)
  rcases List.head?_eq_some_iff.mp begins with ⟨rest, rfl⟩
  generalize bytesEq : ((first :: rest).flatMap fun record => encode (tokensOf record)) = bytes
  have layout : bytes = encode (tokensOf first) ++
      ((rest.flatMap fun record => encode (tokensOf record)) ++ []) := by
    rw [← bytesEq, List.flatMap_cons, List.append_nil]
  have nonempty : bytes ≠ [] := by
    rw [layout]
    simp [encode]
  have rounds : rest.length < bytes.length := by
    have written : ∀ record, encode (tokensOf record) ≠ [] :=
      fun record => List.cons_ne_nil 42 _
    have all := length_le_flatMap written (first :: rest)
    rw [bytesEq] at all
    exact all
  have here := at_start bytes
  rw [layout] at here
  rcases nextRecord_complete (encodes first List.mem_cons_self) here with
    ⟨stop, after, left, found, there⟩
  rw [← layout] at found
  rw [recover_eq nonempty, recoverLoop, found]
  dsimp only
  rw [detected]
  dsimp only
  rw [built first List.mem_cons_self]
  dsimp only
  rw [recoverLoop_built (fun record member =>
      ⟨encodes record (List.mem_cons_of_mem _ member), built record (List.mem_cons_of_mem _ member)⟩)
    encodes_aofHeader (List.nil_append aofHeader).symm (by decide) there rounds, if_pos rfl]
  rfl

theorem run_appendRewrite (manager : AofManager) (started : manager.rewriteFd = true)
    (text : Bytes) (tmp : manager.tmp = some text) (dump : List AofRecord) :
    manager.run (dump.map fun record => .appendRewrite record record.encodeRecord.length) =
      { manager with tmp := some (text ++ dump.flatMap encodeRecord) } := by
  induction dump generalizing manager text with
  | nil =>
      rw [List.flatMap_nil, List.append_nil, ← tmp]
      rfl
  | cons record rest induction =>
      have step : manager.step (.appendRewrite record record.encodeRecord.length) =
          { manager with tmp := some (text ++ record.encodeRecord) } := by
        change (manager.appendRewrite record record.encodeRecord.length).1 = _
        unfold AofManager.appendRewrite
        rw [started, tmp, List.take_length]
        rfl
      rw [List.map_cons, AofManager.run, List.foldl_cons, step]
      refine (induction { manager with tmp := some (text ++ record.encodeRecord) } started _
        rfl).trans ?_
      rw [List.flatMap_cons, List.append_assoc]

/-- The migration writes the dump in the current format. -/
theorem constructedFile_rewritten (recovery : Recovery) (rewrite : recovery.needsRewrite = true)
    (dump : List AofRecord) : constructedFile recovery dump = some (aofBytes dump) := by
  have started : ({ file := recovery.file } : AofManager).step
      (.startRewrite true aofHeader.length) =
        { file := recovery.file, tmp := some aofHeader, rewriteFd := true } := by
    change (({ file := recovery.file } : AofManager).startRewrite true aofHeader.length).1 = _
    unfold AofManager.startRewrite
    rw [if_neg (Nat.lt_irrefl _)]
    rfl
  have appended := run_appendRewrite
    { file := recovery.file, tmp := some aofHeader, rewriteFd := true } rfl aofHeader rfl dump
  unfold constructedFile rewriteCalls
  rw [rewrite, if_pos rfl]
  unfold AofManager.run at appended ⊢
  rw [List.cons_append, List.cons_append, List.foldl_cons, started, List.append_assoc,
    List.foldl_append, appended]
  rfl

end AofRecovery

/-! ## Restored twice -/

namespace LegacyLog

variable {log : LegacyLog}

theorem found_apply {held : Place → Option Record} {room : Bytes} {command : LegacyCommand}
    {place : Place} {record : Record} (found : command.apply held room place = some record) :
    (place = (room, command.key) ∧ command.written = some record) ∨ held place = some record := by
  have updated : ∀ key new, Function.update held (room, key) new place = some record →
      (place = (room, key) ∧ new = some record) ∨ held place = some record := by
    intro key new changed
    by_cases here : place = (room, key)
    · rw [here, Function.update_self] at changed
      exact .inl ⟨here, changed⟩
    · rw [Function.update_of_ne here] at changed
      exact .inr changed
  cases command with
  | set key value => exact updated key _ found
  | del key => exact updated key none found
  | merge key value ts node =>
      rw [LegacyCommand.apply] at found
      rw [LegacyCommand.written]
      cases given : Db.stamp ts node with
      | none =>
          rw [given] at found
          exact .inr found
      | some version =>
          rw [given] at found
          exact updated key _ found

/-- What is true of everything that the commands write is true of the state. -/
theorem state_of_written {holds : Place → Record → Prop}
    (written : ∀ entry ∈ log, ∀ record, entry.2.written = some record →
      holds (entry.1, entry.2.key) record)
    (place : Place) (record : Record) (found : log.state place = some record) :
    holds place record := by
  have along : ∀ held : Place → Option Record,
      (∀ place record, held place = some record → holds place record) →
      ∀ place record, log.foldl (fun held entry => entry.2.apply held entry.1) held place =
        some record → holds place record := by
    clear found
    induction log with
    | nil => exact fun _ start => start
    | cons entry rest induction =>
        intro held start
        apply induction fun later member => written later (List.mem_cons_of_mem _ member)
        intro other left kept
        rcases found_apply kept with ⟨here, wrote⟩ | before
        · rw [here]
          exact written entry List.mem_cons_self left wrote
        · exact start other left before
  exact along (fun _ => none) (fun _ _ nothing => by cases nothing) place record found

/-- What the records of a log of small commands are like. -/
structure Modest (place : Place) (held : Record) : Prop where
  room : place.1.length ≤ kMaxBulk
  key : place.2.length ≤ kMaxBulk
  value : held.value.length ≤ kMaxBulk
  lasting : held.expireAt = 0
  timestamp : held.timestampMs ≤ uint64Max
  node : held.nodeId ≤ uint32Max

theorem normalize_le {ts : Nat} (small : ts ≤ uint64Max) : Hlc.normalize ts ≤ uint64Max := by
  have limits : Hlc.kLegacyLimit * 2 ^ 16 ≤ uint64Max := by decide
  unfold Hlc.normalize
  by_cases old : ts < Hlc.kLegacyLimit
  · rw [if_pos old]
    exact (Nat.mul_le_mul_right (2 ^ 16) (Nat.le_of_lt old)).trans limits
  · rw [if_neg old]
    exact small

theorem stamp_le {tsArg nodeArg : Bytes} {version : Version}
    (given : Db.stamp tsArg nodeArg = some version) :
    version.ts ≤ uint64Max ∧ version.node ≤ uint32Max := by
  unfold Db.stamp at given
  cases parsedTs : parseU64 tsArg with
  | none =>
      rw [parsedTs] at given
      cases given
  | some ts =>
      cases parsedNode : parseU64 nodeArg with
      | none =>
          rw [parsedTs, parsedNode] at given
          cases given
      | some node =>
          rw [parsedTs, parsedNode] at given
          dsimp only at given
          by_cases large : uint32Max < node
          · rw [if_pos large] at given
            cases given
          · rw [if_neg large] at given
            cases given
            exact ⟨normalize_le (parseU64_le parsedTs), Nat.le_of_not_lt large⟩

theorem modest_state (small : log.Small) (place : Place) (record : Record)
    (found : log.state place = some record) : Modest place record := by
  apply state_of_written _ place record found
  intro entry listed record written
  have short := small entry listed
  rcases entry with ⟨room, command⟩
  have roomSmall : room.length ≤ kMaxBulk := short room List.mem_cons_self
  have single : 1 ≤ uint32Max := by decide
  cases command with
  | set key value =>
      have keySmall : key.length ≤ kMaxBulk := short key (by simp [LegacyCommand.tokens])
      have valueSmall : value.length ≤ kMaxBulk := short value (by simp [LegacyCommand.tokens])
      cases written
      exact ⟨roomSmall, keySmall, valueSmall, rfl, Nat.zero_le _, single⟩
  | del key => cases written
  | merge key value ts node =>
      have keySmall : key.length ≤ kMaxBulk := short key (by simp [LegacyCommand.tokens])
      have valueSmall : value.length ≤ kMaxBulk := short value (by simp [LegacyCommand.tokens])
      rw [LegacyCommand.written] at written
      cases given : Db.stamp ts node with
      | none =>
          rw [given] at written
          cases written
      | some version =>
          rw [given] at written
          cases written
          rcases stamp_le given with ⟨stampSmall, nodeSmall⟩
          exact ⟨roomSmall, keySmall, valueSmall, rfl, stampSmall, nodeSmall⟩

/-- What is read in the current format is normalized, which changes nothing in a log that is
settled. -/
theorem settled_iff : log.Settled ↔ ∀ place, (log.state place).map Record.normalized =
    log.state place := by
  have same : ∀ record : Record, record.normalized = record ↔
      record.timestampMs = 0 ∨ Hlc.kLegacyLimit ≤ record.timestampMs := by
    intro record
    rw [← Hlc.normalize_eq_self_iff]
    constructor
    · intro equal
      exact congrArg Record.timestampMs equal
    · intro equal
      rw [Record.normalized, equal]
  constructor
  · intro settled place
    cases found : log.state place with
    | none => rfl
    | some record =>
        rw [Option.map_some, (same record).mpr (settled place record found)]
  · intro equal place record found
    have here := equal place
    rw [found, Option.map_some] at here
    exact (same record).mp (Option.some.inj here)

end LegacyLog

namespace Db

variable {config : Config} {log : LegacyLog} {db : Db}

/-- A room that has a record in memory or in a snapshot is registered. -/
theorem registered_of_held (cold : db.cold = ∅) (snapshots : db.snapshots = ∅) {place : Place}
    (found : db.held place ≠ none) : place.1 ∈ db.rooms := by
  by_contra missing
  apply found
  have unknown : db.room place.1 = {} := by
    rw [Db.room, AList.lookup_eq_none.mpr missing]
    rfl
  have nothing : (db.resident place.1).lookup place.2 = none := by
    unfold Db.resident
    rw [unknown, snapshots]
    rfl
  unfold Db.held
  rw [nothing, cold]
  exact NestedMap.find_empty place.1 place.2

/-- Every room is visited by the dump that has something in it. -/
theorem Migrated.dumped (migrated : Migrated config log db) (place : Place) :
    db.dumped place = log.state place := by
  rw [← migrated.held place]
  unfold Db.dumped
  by_cases registered : place.1 ∈ db.rooms
  · rw [if_pos registered]
    rfl
  · have nothing : db.held place = none := by
      by_contra found
      exact registered (registered_of_held migrated.cold migrated.snapshots found)
    rw [if_neg registered, nothing, migrated.cold]
    exact NestedMap.find_empty place.1 place.2

/-- The records of the dump of the migration are those of the state. -/
theorem Migrated.mem_dumpState (migrated : Migrated config log db) {dumped : Nat}
    {record : AofRecord} (member : record ∈ db.dumpState dumped) :
    ∃ name key held, log.state (name, key) = some held ∧
      record =
        { room := name, args := [ascii "SET", key, held.value]
          expireAt := held.expireAt
          timestampMs := held.timestampMs
          nodeId := held.nodeId } := by
  rcases Db.mem_dumpState migrated.wellFormed member with
    ⟨name, key, held, found, made⟩ | ⟨name, key, version, buried, _⟩
  · rw [migrated.dumped] at found
    exact ⟨name, key, held, found, made⟩
  · rw [migrated.tomb (name, key)] at buried
    cases buried

theorem Migrated.fits (migrated : Migrated config log db) (small : log.Small) (dumped : Nat) :
    ∀ record ∈ db.dumpState dumped, record.Fits := by
  intro record member
  rcases migrated.mem_dumpState member with ⟨name, key, held, found, rfl⟩
  have modest := LegacyLog.modest_state small (name, key) held found
  have command : (ascii "SET").length ≤ kMaxBulk := by decide
  have few : 3 + 5 ≤ kMaxArgs := by decide
  refine ⟨modest.room, ?_, few, ?_, modest.timestamp, modest.node⟩
  · intro arg inArgs
    simp only [List.mem_cons, List.not_mem_nil, or_false] at inArgs
    rcases inArgs with rfl | rfl | rfl
    · exact command
    · exact modest.key
    · exact modest.value
  · change llongMin ≤ held.expireAt ∧ held.expireAt ≤ llongMax
    rw [modest.lasting]
    decide

/-- The file of the migration is read as it was dumped. -/
theorem Migrated.reads (migrated : Migrated config log db) (small : log.Small)
    (dumped later : Nat) :
    constructed config (some (aofBytes (db.dumpState dumped))) later =
      recover db.config (db.dumpState dumped) ∅ later := by
  have read := recover_aofBytes (migrated.fits small dumped) encodes_aofHeader
    (List.nil_append aofHeader).symm (by decide)
  rw [List.append_nil] at read
  unfold constructed
  rw [read, migrated.config]

/-- The dump of the migration, read again. -/
theorem Migrated.again (migrated : Migrated config log db) (small : log.Small)
    (dumped later : Nat) (place : Place) :
    (recover db.config (db.dumpState dumped) ∅ later).held place =
      (log.state place).map Record.normalized := by
  rw [held_recover_dumpState migrated.wellFormed, migrated.tomb place, if_neg (by simp),
    migrated.dumped]
  cases found : log.state place with
  | none => rfl
  | some record =>
      have lasting : record.expired dumped = false := by
        unfold Record.expired
        rw [(LegacyLog.modest_state small place record found).lasting]
        rfl
      rw [Option.filter_some, lasting]
      rfl

/-- The dump of the migration names the rooms that have a record. -/
theorem Migrated.left (migrated : Migrated config log db) (small : log.Small)
    (dumped later : Nat) (name : Bytes) :
    name ∈ (recover db.config (db.dumpState dumped) ∅ later).rooms ↔
      ∃ key, log.state (name, key) ≠ none := by
  have recovered := recovered_recover db.config (db.dumpState dumped) ∅ later
    fun _ => sound_dumpState
  constructor
  · intro registered
    have given : ∀ record ∈ db.dumpState dumped, record.args ≠ [] := by
      intro record member
      rcases migrated.mem_dumpState member with ⟨name, key, held, _, rfl⟩
      exact List.cons_ne_nil _ _
    rcases (mem_recover db.config _ later given name).mp registered with ⟨record, member, named⟩
    rcases migrated.mem_dumpState member with ⟨room, key, held, found, made⟩
    rw [made] at named
    rw [← named]
    exact ⟨key, fun nothing => by rw [found] at nothing; cases nothing⟩
  · intro ⟨key, found⟩
    have held : (recover db.config (db.dumpState dumped) ∅ later).held (name, key) ≠ none := by
      rw [migrated.again small dumped later]
      intro nothing
      exact found (Option.map_eq_none_iff.mp nothing)
    exact registered_of_held recovered.cold recovered.snapshots held

theorem mem_records (log : LegacyLog) (name : Bytes) :
    (∃ record ∈ log.records, record.room = name) ↔ ∃ entry ∈ log, entry.1 = name := by
  unfold LegacyLog.records
  simp only [List.mem_map, exists_exists_and_eq_and]
  rfl

/-- Records that are read as they were written restore the state, once, and twice if it is
settled. -/
theorem restores_of_read {file : Bytes} (small : log.Small) (now dumped later : Nat)
    (read : AofRecovery.recover (some file) =
      { replayed := log.records, file := some file, needsRewrite := true }) :
    Restores config now dumped later file log ↔ log.Settled := by
  have first : constructed config (some file) now = recover config log.records ∅ now := by
    rw [constructed, read]
  have migrated := migrated_recover config log now
  have second : reopened config now dumped later file =
      recover (recover config log.records ∅ now).config
        ((recover config log.records ∅ now).dumpState dumped) ∅ later := by
    rw [reopened, first, read, AofRecovery.constructedFile_rewritten _ rfl]
    exact migrated.reads small dumped later
  rw [LegacyLog.settled_iff]
  constructor
  · intro restores place
    have again := restores.again place
    rw [second, migrated.again small] at again
    exact again
  · intro settled
    refine ⟨fun name => ?_, fun place => ?_, fun place => ?_, fun name => ?_⟩
    · have given : ∀ record ∈ log.records, record.args ≠ [] := by
        intro record member
        rcases List.mem_map.mp member with ⟨entry, _, rfl⟩
        cases entry.2 <;> exact List.cons_ne_nil _ _
      rw [first, mem_recover config log.records now given, mem_records]
    · rw [first]
      exact migrated.held place
    · rw [second, migrated.again small]
      exact settled place
    · rw [second]
      exact migrated.left small dumped later name

/-- An empty file has no format. It gets its header when it is opened. -/
theorem restores_nil (config : Config) (now dumped later : Nat) :
    Restores config now dumped later [] [] := by
  have header : constructedFile (AofRecovery.recover (some []))
      ((constructed config (some []) now).dumpState dumped) = some (aofBytes []) := by
    rfl
  have none : ∀ record ∈ ([] : List AofRecord), record.Fits := by simp
  have read := recover_aofBytes none encodes_aofHeader (List.nil_append aofHeader).symm
    (by decide)
  rw [List.append_nil] at read
  have first : constructed config (some []) now = recover config [] ∅ now := rfl
  have second : reopened config now dumped later [] = recover config [] ∅ later := by
    rw [reopened, header, constructed, read]
  have rooms : ∀ reading name, name ∈ (recover config [] ∅ reading).rooms ↔
      ∃ entry ∈ ([] : LegacyLog), entry.1 = name :=
    fun reading name => (mem_recover config [] reading (by simp) name).trans (mem_records [] name)
  refine ⟨rooms now, (migrated_recover config [] now).held, fun place => ?_, fun name => ?_⟩
  · rw [second]
    exact (migrated_recover config [] later).held place
  · rw [second, rooms later]
    constructor
    · intro ⟨entry, member, _⟩
      cases member
    · intro ⟨key, found⟩
      exact absurd rfl found

theorem settled_nil : LegacyLog.Settled [] := by
  intro place record found
  cases found

end Db

namespace LegacyCommand

def name : LegacyCommand → Bytes
  | set _ _ => ascii "SET"
  | del _ => ascii "DEL"
  | merge _ _ _ _ => ascii "CRDTMERGE"

def arguments : LegacyCommand → List Bytes
  | set key value => [key, value]
  | del key => [key]
  | merge key value ts node => [key, value, ts, node]

theorem tokens_eq (command : LegacyCommand) :
    command.tokens = command.name :: command.arguments := by
  cases command <;> rfl

theorem arguments_head (command : LegacyCommand) :
    ∃ rest, command.arguments = command.key :: rest := by
  cases command <;> exact ⟨_, rfl⟩

theorem length_tokens_le (command : LegacyCommand) : command.tokens.length ≤ 5 := by
  cases command <;> simp [tokens]

theorem name_cases (command : LegacyCommand) :
    command.name = ascii "SET" ∨ command.name = ascii "DEL" ∨
      command.name = ascii "CRDTMERGE" := by
  cases command with
  | set _ _ => exact .inl rfl
  | del _ => exact .inr (.inl rfl)
  | merge _ _ _ _ => exact .inr (.inr rfl)

theorem isWriteCmd_name (command : LegacyCommand) : isWriteCmd command.name = true := by
  rcases command.name_cases with same | same | same <;> rw [same] <;> decide

theorem name_ne_defaultRoom (command : LegacyCommand) : command.name ≠ Db.defaultRoom := by
  rcases command.name_cases with same | same | same <;> rw [same] <;> decide

theorem name_ne_magic (command : LegacyCommand) : command.name ≠ kMagicToken := by
  rcases command.name_cases with same | same | same <;> rw [same] <;> decide

end LegacyCommand

/-! ## Detection -/

namespace AofRecovery

/-- A command behind its room is recognised, whatever the room. -/
theorem detect_room (room : Bytes) (command : LegacyCommand) :
    detect (room :: command.tokens) = .legacy .v2 := by
  rcases command.arguments_head with ⟨rest, arguments⟩
  rw [command.tokens_eq, arguments]
  unfold detect
  rw [if_neg (by simp)]
  exact if_pos ⟨by simp, command.isWriteCmd_name⟩

/-- A command without a room is taken for one with a room when its key is a command name. -/
theorem detect_command (command : LegacyCommand) :
    detect command.tokens =
      .legacy (if isWriteCmd command.key = true then .v2 else .v1) := by
  rcases command.arguments_head with ⟨rest, arguments⟩
  rw [command.tokens_eq, arguments]
  have noHeader : ¬((command.name :: command.key :: rest).length = 2 ∧
      (command.name :: command.key :: rest)[0]? = some kMagicToken) := by
    rintro ⟨-, magic⟩
    exact command.name_ne_magic (Option.some.inj magic)
  unfold detect
  rw [if_neg noHeader]
  cases key : isWriteCmd command.key with
  | true => exact if_pos ⟨by simp, key⟩
  | false =>
      refine if_neg fun both => ?_
      have taken : isWriteCmd command.key = true := both.2
      rw [key] at taken
      cases taken

end AofRecovery

namespace Db

variable {log : LegacyLog}

theorem restores_v2 (config : Config) (small : log.Small) (now dumped later : Nat) :
    Restores config now dumped later log.writtenV2 log ↔ log.Settled := by
  cases begins : log.head? with
  | none =>
      rcases List.head?_eq_none_iff.mp begins with rfl
      exact iff_of_true (restores_nil config now dumped later) settled_nil
  | some entry =>
      have file : log.records.flatMap (fun record => encode (record.room :: record.args)) =
          log.writtenV2 := by
        unfold LegacyLog.records
        rw [List.flatMap_map]
        rfl
      have head : log.records.head? = some (entry.2.record entry.1) := by
        unfold LegacyLog.records
        rw [List.head?_map, begins]
        rfl
      refine restores_of_read small now dumped later ?_
      rw [← file]
      refine recover_legacy _ head ?_ ?_ ?_ (detect_room entry.1 entry.2)
      · intro record member
        rcases List.mem_map.mp member with ⟨other, listed, rfl⟩
        exact small other listed
      · intro record member
        rcases List.mem_map.mp member with ⟨other, listed, rfl⟩
        have few := other.2.length_tokens_le
        have limit : 6 ≤ kMaxArgs := by decide
        change other.2.tokens.length + 1 ≤ kMaxArgs
        omega
      · intro record member
        rcases List.mem_map.mp member with ⟨other, -, rfl⟩
        rfl

variable {commands : List LegacyCommand}

/-- The arguments of a command without a room, wherever the first of them is read as a room. -/
theorem small_tokens (small : LegacyLog.Small (inDefault commands)) :
    ∀ command ∈ commands, ∀ token ∈ command.tokens, token.length ≤ kMaxBulk := by
  intro command listed token member
  exact small (defaultRoom, command) (List.mem_map.mpr ⟨command, listed, rfl⟩) token
    (List.mem_cons_of_mem _ member)

theorem few_tokens (command : LegacyCommand) : command.tokens.length ≤ kMaxArgs := by
  have limit : 5 ≤ kMaxArgs := by decide
  exact command.length_tokens_le.trans limit

/-- A log whose first key is no command name is read as commands without rooms. -/
theorem restores_v1 (config : Config) (small : LegacyLog.Small (inDefault commands))
    (now dumped later : Nat)
    (plain : ∀ command, commands.head? = some command → isWriteCmd command.key = false) :
    Restores config now dumped later (writtenV1 commands) (inDefault commands) ↔
      LegacyLog.Settled (inDefault commands) := by
  cases begins : commands.head? with
  | none =>
      rcases List.head?_eq_none_iff.mp begins with rfl
      exact iff_of_true (restores_nil config now dumped later) settled_nil
  | some command =>
      have records : LegacyLog.records (inDefault commands) =
          commands.map fun other => other.record defaultRoom := by
        unfold LegacyLog.records inDefault
        rw [List.map_map]
        rfl
      have file : (LegacyLog.records (inDefault commands)).flatMap
          (fun record => encode record.args) = writtenV1 commands := by
        rw [records, List.flatMap_map]
        rfl
      have head : (LegacyLog.records (inDefault commands)).head? =
          some (command.record defaultRoom) := by
        rw [records, List.head?_map, begins]
        rfl
      have detected : detect command.tokens = .legacy .v1 := by
        rw [detect_command, plain command begins]
        rfl
      refine restores_of_read small now dumped later ?_
      rw [← file]
      refine recover_legacy _ head ?_ ?_ ?_ detected
      · intro record member
        rw [records] at member
        rcases List.mem_map.mp member with ⟨other, listed, rfl⟩
        exact small_tokens small other listed
      · intro record member
        rw [records] at member
        rcases List.mem_map.mp member with ⟨other, listed, rfl⟩
        exact few_tokens other
      · intro record member
        rw [records] at member
        rcases List.mem_map.mp member with ⟨other, listed, rfl⟩
        rfl

/-- What recovery makes of a command when it takes its name for a room. -/
def misread (command : LegacyCommand) : AofRecord :=
  { room := command.name, args := command.arguments }

/-- A log whose first key is a command name registers a room that it does not name. -/
theorem not_restores_v1 (config : Config) (small : LegacyLog.Small (inDefault commands))
    (now dumped later : Nat) {command : LegacyCommand} (begins : commands.head? = some command)
    (taken : isWriteCmd command.key = true) :
    ¬Restores config now dumped later (writtenV1 commands) (inDefault commands) := by
  have file : (commands.map misread).flatMap (fun record => encode (record.room :: record.args)) =
      writtenV1 commands := by
    rw [List.flatMap_map]
    exact List.flatMap_congr fun other _ => congrArg encode other.tokens_eq.symm
  have head : (commands.map misread).head? = some (misread command) := by
    rw [List.head?_map, begins]
    rfl
  have detected : detect ((misread command).room :: (misread command).args) = .legacy .v2 := by
    have found := detect_command command
    rw [taken, if_pos rfl, command.tokens_eq] at found
    exact found
  have read := recover_legacy (fun record => record.room :: record.args) head
    (fun record member => by
      rcases List.mem_map.mp member with ⟨other, listed, rfl⟩
      have each := small_tokens small other listed
      rw [other.tokens_eq] at each
      exact each)
    (fun record member => by
      rcases List.mem_map.mp member with ⟨other, -, rfl⟩
      have few := few_tokens other
      rw [other.tokens_eq] at few
      exact few)
    (fun record member => by
      rcases List.mem_map.mp member with ⟨other, -, rfl⟩
      rfl)
    detected
  rw [file] at read
  intro restores
  have given : ∀ record ∈ commands.map misread, record.args ≠ [] := by
    intro record member
    rcases List.mem_map.mp member with ⟨other, -, rfl⟩
    rcases other.arguments_head with ⟨rest, arguments⟩
    change other.arguments ≠ []
    rw [arguments]
    exact List.cons_ne_nil _ _
  have registered : command.name ∈ (constructed config (some (writtenV1 commands)) now).rooms := by
    unfold constructed
    rw [read, mem_recover config _ now given]
    exact ⟨misread command, List.mem_of_head? head, rfl⟩
  rcases (restores.rooms command.name).mp registered with ⟨entry, member, named⟩
  rcases List.mem_map.mp member with ⟨other, -, rfl⟩
  exact command.name_ne_defaultRoom named.symm

end Db

/-- A log with rooms is restored exactly when it leaves no timestamp in the old format, and a
log without rooms when besides its first key is not the name of one of the three commands. -/
theorem legacy_log_restored_iff (config : Config) (now dumped later : Nat) :
    (∀ log : LegacyLog, log.Small →
      (Restores config now dumped later log.writtenV2 log ↔ log.Settled)) ∧
      ∀ commands : List LegacyCommand, LegacyLog.Small (inDefault commands) →
        (Restores config now dumped later (writtenV1 commands) (inDefault commands) ↔
          (∀ command, commands.head? = some command → isWriteCmd command.key = false) ∧
            LegacyLog.Settled (inDefault commands)) := by
  constructor
  · intro log small
    exact Db.restores_v2 config small now dumped later
  · intro commands small
    by_cases plain : ∀ command, commands.head? = some command → isWriteCmd command.key = false
    · rw [Db.restores_v1 config small now dumped later plain]
      exact (and_iff_right plain).symm
    · constructor
      · intro restores
        apply absurd _ plain
        intro command begins
        cases taken : isWriteCmd command.key with
        | false => rfl
        | true =>
            exact absurd restores (Db.not_restores_v1 config small now dumped later begins taken)
      · intro both
        exact absurd both.1 plain

/-- A plain write and a merge with a timestamp of today. -/
def betaLog : LegacyLog :=
  [(ascii "beta", .set (ascii "k") (ascii "v")),
    (ascii "beta", .merge (ascii "m") (ascii "w") (ascii "1750000000000") (ascii "2"))]

theorem legacy_log_restored_beta : Restores {} 1 2 3 betaLog.writtenV2 betaLog := by
  have limit : 13 ≤ kMaxBulk := by decide
  have short : ∀ entry ∈ betaLog, ∀ token ∈ entry.1 :: entry.2.tokens, token.length ≤ 13 := by
    decide
  have settled : betaLog.Settled := by
    apply LegacyLog.state_of_written
    decide +kernel
  exact ((legacy_log_restored_iff {} 1 2 3).1 betaLog fun entry listed token member =>
    (short entry listed token member).trans limit).mpr settled

/-- A log of two commands, the first on a key named `SET`. -/
def setLog : List LegacyCommand :=
  [.set (ascii "SET") (ascii "x"), .set (ascii "a") (ascii "1")]

/-- A log with a room whose merge has an old timestamp in milliseconds. -/
def oldLog : LegacyLog :=
  [(ascii "beta", .merge (ascii "k") (ascii "v") (ascii "1000") (ascii "2"))]

/-- Of the one log the whole history is lost: nothing of it is found in the default room, and
a room `SET` is registered. The other has one version after the first start and another one
after the second. -/
theorem legacy_log_misread :
    (¬Restores {} 0 0 0 (writtenV1 setLog) (inDefault setLog) ∧
      (constructed {} (some (writtenV1 setLog)) 0).held (ascii "default", ascii "a") = none ∧
      (LegacyLog.state (inDefault setLog) (ascii "default", ascii "a")).map Record.value =
        some (ascii "1") ∧
      ascii "SET" ∈ (constructed {} (some (writtenV1 setLog)) 0).rooms) ∧
    ¬Restores {} 0 0 0 oldLog.writtenV2 oldLog ∧
      ((constructed {} (some oldLog.writtenV2) 0).held (ascii "beta", ascii "k")).map
        Record.timestampMs = some 65536000 ∧
      ((reopened {} 0 0 0 oldLog.writtenV2).held (ascii "beta", ascii "k")).map
        Record.timestampMs = some 4294967296000 := by
  have lost : (constructed {} (some (writtenV1 setLog)) 0).held (ascii "default", ascii "a") =
      none := by
    decide +kernel
  have meant : (LegacyLog.state (inDefault setLog) (ascii "default", ascii "a")).map
      Record.value = some (ascii "1") := by
    decide +kernel
  have once : (LegacyLog.state oldLog (ascii "beta", ascii "k")).map Record.timestampMs =
      some 65536000 := by
    decide +kernel
  have twice : ((reopened {} 0 0 0 oldLog.writtenV2).held (ascii "beta", ascii "k")).map
      Record.timestampMs = some 4294967296000 := by
    decide +kernel
  refine ⟨⟨?_, lost, meant, by decide +kernel⟩, ?_, by decide +kernel, twice⟩
  · intro restores
    rw [← restores.state, lost] at meant
    cases meant
  · intro restores
    rw [restores.again, once] at twice
    cases twice

end SomniumDB
