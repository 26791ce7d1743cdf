import SomniumDB.Abstract.Executed
import SomniumDB.Storage.AofCodec
import SomniumDB.Storage.Replicator

/-! # The commands that replicate a record

Every record of the log that a handler wrote is replicated as one command for
each of its changes, and a peer that accepts the command has been offered the
change. -/

namespace SomniumDB

open Bytes FsUtil Replicator

/-- The command that replicates one change. -/
def Change.command : Change → List Bytes
  | .put place record =>
      [ascii "CRDTMERGE", place.2, record.value, decimal record.timestampMs,
        decimal record.nodeId, decimalInt record.expireAt]
  | .del place version =>
      [ascii "CRDTDEL", place.2, decimal version.ts, decimal version.node]

namespace AofRecord

variable (record : AofRecord)

/-- The last four tokens of a record, counted from the end. -/
theorem tokens_meta :
    record.tokens[record.tokens.length - 4]? = some kMetaToken ∧
      record.tokens[record.tokens.length - 3]? = some (decimalInt record.expireAt) ∧
      record.tokens[record.tokens.length - 2]? = some (decimal record.timestampMs) ∧
      record.tokens[record.tokens.length - 1]? = some (decimal record.nodeId) := by
  have positions : record.tokens.length - 4 = record.args.length + 1 ∧
      record.tokens.length - 3 = record.args.length + 2 ∧
      record.tokens.length - 2 = record.args.length + 3 ∧
      record.tokens.length - 1 = record.args.length + 4 := by
    rw [length_tokens]
    omega
  rw [positions.1, positions.2.1, positions.2.2.1, positions.2.2.2]
  simp [tokens]

theorem tokens_args {index : Nat} (within : index < record.args.length) :
    record.tokens[index + 1]? = record.args[index]? := by
  rw [tokens, List.getElem?_cons_succ, List.getElem?_append_left within]

theorem take_tokens {count : Nat} (within : count ≤ record.args.length) :
    (record.tokens.take (count + 1)).drop 2 = (record.args.take count).drop 1 := by
  rw [tokens, List.take_succ_cons, List.drop_succ_cons, List.take_append_of_le_length within]

end AofRecord

/-- The commands of a record of this node with at least one argument. -/
theorem recordCommands_own {record : AofRecord} {name : Bytes} {rest : List Bytes}
    (args : record.args = name :: rest) (arguments : rest ≠ [])
    (small : record.nodeId ≤ uint64Max) :
    recordCommands record.nodeId record.tokens =
      if upper name = ascii "DEL" ∨ upper name = ascii "CRDTDEL" then
        [[ascii "CRDTDEL", rest[0]?.getD [], decimal record.timestampMs,
          decimal record.nodeId]]
      else
        (Db.pairsOf (if upper name = ascii "MSET" then rest
            else if upper name = ascii "SET" ∨ upper name = ascii "CRDTMERGE" then
              (record.tokens.take 4).drop 2
            else [])).map fun pair =>
          [ascii "CRDTMERGE", pair.1, pair.2, decimal record.timestampMs,
            decimal record.nodeId, decimalInt record.expireAt] := by
  rcases record.tokens_meta with ⟨isMeta, expireAt, timestamp, node⟩
  have length : record.tokens.length = rest.length + 6 := by
    rw [AofRecord.length_tokens, args]
    rfl
  have positive : 0 < rest.length := List.length_pos_iff.mpr arguments
  have long : 7 ≤ record.tokens.length := by omega
  have command : record.tokens[1]? = some name := by
    rw [record.tokens_args (by rw [args]; simp), args]
    rfl
  have key : record.tokens[2]? = rest[0]? := by
    rw [record.tokens_args (by rw [args, List.length_cons]; omega), args]
    rfl
  have pairs : (record.tokens.take (record.tokens.length - 4)).drop 2 = rest := by
    have count : record.tokens.length - 4 = record.args.length + 1 := by
      rw [AofRecord.length_tokens]
      omega
    rw [count, record.take_tokens le_rfl, List.take_length, args]
    rfl
  have nothing : (record.tokens.take 0).drop 2 = [] := rfl
  simp only [recordCommands, isMeta, expireAt, timestamp, node, command, key, long,
    Option.getD_some, parseU64_decimal record.nodeId small, true_and, if_true]
  by_cases delete : upper name = ascii "DEL" ∨ upper name = ascii "CRDTDEL"
  · rw [if_pos delete, if_pos delete]
  · rw [if_neg delete, if_neg delete]
    by_cases mset : upper name = ascii "MSET"
    · rw [if_pos mset, if_pos mset, pairs]
    · rw [if_neg mset, if_neg mset]
      by_cases single : upper name = ascii "SET" ∨ upper name = ascii "CRDTMERGE"
      · rw [if_pos single, if_pos single]
      · rw [if_neg single, if_neg single, nothing]

/-- The commands of a record that a handler wrote are those of its changes. -/
theorem recordCommands_sound {record : AofRecord} (sound : record.Sound)
    (small : record.nodeId ≤ uint64Max) :
    recordCommands record.nodeId record.tokens = record.changes.map Change.command := by
  unfold AofRecord.Sound at sound
  split at sound
  · exact sound.elim
  · rename_i name rest args
    by_cases arguments : rest = []
    · subst rest
      have short : ¬ 7 ≤ record.tokens.length := by
        rw [AofRecord.length_tokens, args]
        simp
      rcases sound with ⟨_, enough⟩ | command | ⟨_, enough⟩ | ⟨_, enough⟩ | ⟨_, enough, _⟩
      · cases enough
      · have others : ascii "MSET" ≠ ascii "CRDTMERGE" ∧ ascii "MSET" ≠ ascii "SET" := by decide
        simp [recordCommands, short, AofRecord.changes, args, command, others, Db.pairsOf]
      · cases enough
      · cases enough
      · cases enough
    · rw [recordCommands_own args arguments small]
      have two : 2 ≤ rest.length → (record.tokens.take 4).drop 2 =
          [rest[0]?.getD [], rest[1]?.getD []] := by
        intro enough
        obtain ⟨key, value, more, rfl⟩ : ∃ key value more, rest = key :: value :: more := by
          rcases rest with _ | ⟨key, _ | ⟨value, more⟩⟩
          · simp at enough
          · simp at enough
          · exact ⟨key, value, more, rfl⟩
        rw [record.take_tokens (by rw [args]; simp), args]
        rfl
      rcases sound with ⟨command, enough⟩ | command | ⟨command, enough⟩ | ⟨command, enough⟩ |
        ⟨command, enough, _⟩
      · have others : ascii "SET" ≠ ascii "DEL" ∧ ascii "SET" ≠ ascii "CRDTDEL" ∧
            ascii "SET" ≠ ascii "MSET" ∧ ascii "SET" ≠ ascii "CRDTMERGE" := by decide
        simp [AofRecord.changes, args, command, others, enough, two enough, Db.pairsOf,
          AofRecord.put, Change.command]
      · have others : ascii "MSET" ≠ ascii "DEL" ∧ ascii "MSET" ≠ ascii "CRDTDEL" ∧
            ascii "MSET" ≠ ascii "CRDTMERGE" ∧ ascii "MSET" ≠ ascii "SET" := by decide
        simp [AofRecord.changes, args, command, others, AofRecord.put, Change.command]
      · have others : ascii "DEL" ≠ ascii "CRDTMERGE" ∧ ascii "DEL" ≠ ascii "SET" ∧
            ascii "DEL" ≠ ascii "MSET" := by decide
        simp [AofRecord.changes, args, command, others, enough, AofRecord.version,
          Change.command]
      · have others : ascii "CRDTDEL" ≠ ascii "CRDTMERGE" ∧ ascii "CRDTDEL" ≠ ascii "SET" ∧
            ascii "CRDTDEL" ≠ ascii "MSET" ∧ ascii "CRDTDEL" ≠ ascii "DEL" := by decide
        simp [AofRecord.changes, args, command, others, enough, AofRecord.version,
          Change.command]
      · have others : ascii "CRDTMERGE" ≠ ascii "DEL" ∧ ascii "CRDTMERGE" ≠ ascii "CRDTDEL" ∧
            ascii "CRDTMERGE" ≠ ascii "MSET" := by decide
        simp [AofRecord.changes, args, command, others, enough, two (by omega), Db.pairsOf,
          AofRecord.put, Change.command]

/-- The numbers of a change survive the trip: its timestamp is in the hybrid
format, and all are within the types of the source. -/
structure Change.Portable (change : Change) : Prop where
  hybrid : Hlc.kLegacyLimit ≤ change.version.ts
  timestamp : change.version.ts ≤ uint64Max
  node : change.version.node ≤ uint32Max
  deadline : ∀ place record, change = .put place record →
    0 ≤ record.expireAt ∧ record.expireAt ≤ llongMax

theorem stamped_portable {record : AofRecord} {version : Version}
    (stamped : Db.Stamped record (decimal version.ts) (decimal version.node))
    (hybrid : Hlc.kLegacyLimit ≤ version.ts) (timestamp : version.ts ≤ uint64Max)
    (node : version.node ≤ uint32Max) : record.version = version := by
  rcases stamped with ⟨⟨ts, parsed, normalized⟩, parsedNode, _⟩
  rw [parseU64_decimal version.ts timestamp] at parsed
  rw [parseU64_decimal version.node (node.trans (by decide))] at parsedNode
  cases parsed
  rw [Hlc.normalize_of_le hybrid] at normalized
  exact Version.ext normalized.symm (Option.some.inj parsedNode).symm

/-- A peer that accepts the command of a change, in the room of the change, has
been offered the change. -/
theorem execute_command {config : Config} {db : Db} {call : Call} {change : Change}
    (sane : Db.Sane config db) (portable : change.Portable) (args : call.args = change.command)
    (selected : db.clientRoom call.clientFd = change.place.1)
    (listening : call.subscribed = false) (accepted : (db.execute call).2.head? = some 43) :
    ∃ record : AofRecord, record.Sound ∧ record.changes = [change] ∧
      (db.execute call).1.node =
        (db.beginCommand call).node.offer db.config call.now record change := by
  cases change with
  | put place content =>
      rcases Db.execute_crdtmerge sane args (by decide) listening accepted with
        ⟨record, room, sound, single, stamped, deadline, node⟩
      have version := stamped_portable stamped portable.hybrid portable.timestamp portable.node
      rcases portable.deadline place content rfl with ⟨low, high⟩
      have same : record.put place.2 content.value = .put place content := by
        rw [parseI64_decimalInt content.expireAt (le_trans (by decide) low) high] at deadline
        have expireAt := Option.some.inj deadline
        have timestamp : record.timestampMs = content.timestampMs := congrArg Version.ts version
        have nodeId : record.nodeId = content.nodeId := congrArg Version.node version
        unfold AofRecord.put
        rw [room, selected, ← expireAt, timestamp, nodeId]
        rfl
      rw [same] at single node
      exact ⟨record, sound, single, node⟩
  | del place version =>
      rcases Db.execute_crdtdel sane args listening accepted with
        ⟨record, room, sound, single, stamped, node⟩
      have same := stamped_portable stamped portable.hybrid portable.timestamp portable.node
      change db.clientRoom call.clientFd = place.1 at selected
      rw [room, selected, same] at single node
      exact ⟨record, sound, single, node⟩

theorem command_head (change : Change) :
    change.command.head? = some (ascii "CRDTMERGE") ∨
      change.command.head? = some (ascii "CRDTDEL") := by
  cases change with
  | put place record => exact .inl rfl
  | del place version => exact .inr rfl

end SomniumDB
