import SomniumDB.Abstract.Events
import SomniumDB.Abstract.Logged
import SomniumDB.Abstract.Offer

/-! # Where a logged record comes from

A record that a command appends carries a version of the node's own, above its
clock, or the version that a replicated command brings. -/

namespace SomniumDB

open Bytes FsUtil

namespace Node

variable {config : Config} {now : Nat} {node after : Node}

/-- What a node does by itself it logs under its own id, above its clock. -/
theorem locals_log (locals : Locals config now node after) :
    ∃ new, after.log = node.log ++ new ∧ ∀ record ∈ new,
      record.nodeId = config.nodeId ∧ node.clock < record.timestampMs := by
  induction locals with
  | refl => exact ⟨[], by simp, by simp⟩
  | tail earlier step induction =>
      rcases induction with ⟨new, grown, own⟩
      cases step with
      | settle held settles => exact ⟨new, grown, own⟩
      | issue record issued =>
          have advanced := steps_clock (Locals.steps earlier)
          refine ⟨new ++ [record], by simp [commit, grown], ?_⟩
          intro other member
          rcases List.mem_append.mp member with before | here
          · exact own other before
          · rw [List.mem_singleton.mp here]
            exact ⟨issued.origin, advanced.trans_lt issued.fresh⟩

end Node

namespace Db

variable {config : Config} {now : Nat} {db : Db} {name : Bytes} {call : Call}

/-- The version in the last arguments of a replicated command. -/
def stamp (tsArg nodeArg : Bytes) : Option Version :=
  match parseU64 tsArg, parseU64 nodeArg with
  | some ts, some node => if uint32Max < node then none else some ⟨Hlc.normalize ts, node⟩
  | _, _ => none

/-- The key and the version that a replicated command brings, if its arguments
are well formed. -/
def incoming : List Bytes → Option (Bytes × Version)
  | [first, key, tsArg, nodeArg] =>
      if upper first = ascii "CRDTDEL" then (stamp tsArg nodeArg).map (key, ·) else none
  | [first, key, _, tsArg, nodeArg] =>
      if upper first = ascii "CRDTMERGE" then (stamp tsArg nodeArg).map (key, ·) else none
  | [first, key, _, tsArg, nodeArg, expireArg] =>
      if upper first = ascii "CRDTMERGE" ∧ (parseI64 expireArg).any (0 ≤ ·) then
        (stamp tsArg nodeArg).map (key, ·)
      else none
  | _ => none

/-- The version is not too far in the future. -/
def Near (db : Db) (now : Nat) (version : Version) : Prop :=
  (Hlc.physicalMs version.ts : Int) ≤ now + db.config.maxClockOffsetMs

/-- `incoming_version` admits the versions that are near. -/
theorem incomingVersion_of_near {tsArg nodeArg : Bytes} {version : Version}
    (stamped : stamp tsArg nodeArg = some version) (near : db.Near now version) :
    db.incomingVersion now tsArg nodeArg =
      .ok ({ db with clock := Hlc.observe db.clock version.ts }, version) := by
  unfold stamp at stamped
  unfold incomingVersion
  cases parsedTs : parseU64 tsArg with
  | none =>
      rw [parsedTs] at stamped
      cases stamped
  | some ts =>
      cases parsedNode : parseU64 nodeArg with
      | none =>
          rw [parsedTs, parsedNode] at stamped
          cases stamped
      | some node =>
          rw [parsedTs, parsedNode] at stamped
          dsimp only at stamped ⊢
          by_cases large : uint32Max < node
          · rw [if_pos large] at stamped
            cases stamped
          · rw [if_neg large] at stamped ⊢
            rcases Option.some.inj stamped with rfl
            rw [if_neg (Int.not_lt.mpr near)]

theorem Stamped.stamp {record : AofRecord} {tsArg nodeArg : Bytes}
    (stamped : Stamped record tsArg nodeArg) : stamp tsArg nodeArg = some record.version := by
  rcases stamped with ⟨⟨ts, parsedTs, normalized⟩, parsedNode, small⟩
  simp only [Db.stamp, parsedTs, parsedNode, if_neg (Nat.not_lt.mpr small), normalized]
  rfl

theorem mergeInto_reply (db : Db) (now : Nat) (name key value : Bytes) (args : List Bytes)
    (expireAt : Option Int) (version : Version) :
    (db.mergeInto now name key value args expireAt version).2.head? = some 43 := by
  unfold mergeInto Keyspace.mergeInto
  simp only [Keyspace.ofDb]
  by_cases stale :
      (db.lookup now name key).1.stale name key (db.lookup now name key).2 version = true
  · rw [if_pos stale]
    simp [ascii, ignoredStale]
  · rw [if_neg stale]
    simp [ascii]

theorem deleteFrom_reply (db : Db) (now : Nat) (name key : Bytes) (args : List Bytes)
    (version : Version) : (db.deleteFrom now name key args version).2.head? = some 43 := by
  unfold deleteFrom Keyspace.deleteFrom
  simp only [Keyspace.ofDb]
  by_cases stale :
      (db.lookup now name key).1.stale name key (db.lookup now name key).2 version = true
  · rw [if_pos stale]
    simp [ascii, ignoredStale]
  · rw [if_neg stale]
    simp [ascii]

/-- A merge of a version that is near is not refused. -/
theorem merge_reply {args : List Bytes} {first key : Bytes} (head : args.head? = some first)
    (command : upper first = ascii "CRDTMERGE") {version : Version}
    (brings : incoming args = some (key, version)) (near : db.Near now version) :
    (db.handleCrdtmerge now name args).2.head? = some 43 := by
  have notDelete : ascii "CRDTMERGE" ≠ ascii "CRDTDEL" := by decide
  unfold incoming at brings
  split at brings
  · obtain rfl : _ = first := by simpa using head
    rw [command, if_neg notDelete] at brings
    cases brings
  · obtain rfl : _ = first := by simpa using head
    rw [if_pos command, Option.map_eq_some_iff] at brings
    rcases brings with ⟨_, stamped, equal⟩
    cases equal
    unfold handleCrdtmerge Keyspace.handleCrdtmerge
    simp only [Keyspace.ofDb, incomingVersion_of_near stamped near]
    exact mergeInto_reply _ _ _ _ _ _ _ _
  · split at brings
    · rename_i expireArg shape
      rcases Option.map_eq_some_iff.mp brings with ⟨_, stamped, equal⟩
      cases equal
      cases parsed : parseI64 expireArg with
      | none =>
          rw [parsed] at shape
          cases shape.2
      | some expireAt =>
          have nonnegative : ¬ expireAt < 0 := by simpa [parsed] using shape.2
          unfold handleCrdtmerge Keyspace.handleCrdtmerge
          simp only [Keyspace.ofDb, parsed, if_neg nonnegative,
            incomingVersion_of_near stamped near]
          exact mergeInto_reply _ _ _ _ _ _ _ _
    · cases brings
  · cases brings

theorem delete_reply {args : List Bytes} {first key : Bytes} (head : args.head? = some first)
    (command : upper first = ascii "CRDTDEL") {version : Version}
    (brings : incoming args = some (key, version)) (near : db.Near now version) :
    (db.handleCrdtdel now name args).2.head? = some 43 := by
  have notMerge : ascii "CRDTDEL" ≠ ascii "CRDTMERGE" := by decide
  unfold incoming at brings
  split at brings
  · obtain rfl : _ = first := by simpa using head
    rw [if_pos command, Option.map_eq_some_iff] at brings
    rcases brings with ⟨_, stamped, equal⟩
    cases equal
    unfold handleCrdtdel Keyspace.handleCrdtdel
    simp only [Keyspace.ofDb, incomingVersion_of_near stamped near]
    exact deleteFrom_reply _ _ _ _ _ _
  · obtain rfl : _ = first := by simpa using head
    rw [command, if_neg notMerge] at brings
    cases brings
  · obtain rfl : _ = first := by simpa using head
    rw [command, if_neg (fun shape => notMerge shape.1)] at brings
    cases brings
  · cases brings

/-- The handler of a replicated command: it brings nothing that is admitted and
the state is left alone, or what it brings is offered to the node. -/
def Replicates (now : Nat) (db : Db) (name : Bytes) (args : List Bytes)
    (outcome : Db × Bytes) : Prop :=
  (outcome.1 = db ∧ ∀ key version, incoming args = some (key, version) → ¬ db.Near now version) ∨
    ∃ key version record change, incoming args = some (key, version) ∧ db.Near now version ∧
      Offered now db name args outcome record change ∧ change.place = (name, key) ∧
      record.version = version

theorem replicates_merge (wellFormed : db.WellFormed) (awake : db.Awake name)
    {args : List Bytes} {first : Bytes} (head : args.head? = some first)
    (command : upper first = ascii "CRDTMERGE") :
    Replicates now db name args (db.handleCrdtmerge now name args) := by
  have outcome : Refused db (db.handleCrdtmerge now name args) ∨ _ :=
    handleCrdtmerge_cases wellFormed awake head command
  rcases outcome with
    ⟨same, negative⟩ | ⟨key, value, tsArg, nodeArg, more, record, shape, offered, stamped, deadline⟩
  · refine .inl ⟨same, ?_⟩
    intro key version brings near
    have positive : (db.handleCrdtmerge now name args).2.head? = _ :=
      merge_reply head command brings near
    cases negative.symm.trans positive
  · refine .inr ⟨key, record.version, record, _, ?_, offered.near, offered, ?_, rfl⟩
    · rw [shape]
      unfold Deadline at deadline
      split at deadline
      · rw [incoming, if_pos command, stamped.stamp, Option.map_some]
      · rw [incoming, if_pos ⟨command, by simp [deadline]⟩, stamped.stamp, Option.map_some]
      · exact deadline.elim
    · rw [← offered.room]
      rfl

theorem replicates_delete (wellFormed : db.WellFormed) (awake : db.Awake name)
    {args : List Bytes} {first : Bytes} (head : args.head? = some first)
    (command : upper first = ascii "CRDTDEL") :
    Replicates now db name args (db.handleCrdtdel now name args) := by
  have outcome : Refused db (db.handleCrdtdel now name args) ∨ _ :=
    handleCrdtdel_cases wellFormed awake head command
  rcases outcome with
    ⟨same, negative⟩ | ⟨key, tsArg, nodeArg, record, shape, offered, stamped, _⟩
  · refine .inl ⟨same, ?_⟩
    intro key version brings near
    have positive : (db.handleCrdtdel now name args).2.head? = _ :=
      delete_reply head command brings near
    cases negative.symm.trans positive
  · refine .inr ⟨key, record.version, record, _, ?_, offered.near, offered, rfl, rfl⟩
    rw [shape, incoming, if_pos command, stamped.stamp, Option.map_some]

/-- A replicated command that the node applies: it is well formed and near, it
runs in the client's room, and what it brings is not stale there. -/
structure Imports (db : Db) (call : Call) (key : Bytes) (version : Version) : Prop where
  brings : incoming call.args = some (key, version)
  near : db.Near call.now version
  listening : call.subscribed = false
  opens : (db.beginCommand call).Opens (db.clientRoom call.clientFd)
  newer : db.stale (db.clientRoom call.clientFd) key
    ((db.held (db.clientRoom call.clientFd, key)).filter fun record =>
      !record.expired call.now) version = false

/-- Nothing is appended when the log is not longer than at the start. -/
theorem appended_nil {first : Bytes} (head : call.args.head? = some first)
    (same : (db.execute call).1.aof = (db.beginCommand call).aof) : db.appended call = [] :=
  appended_of_log head [] (by rw [same, List.append_nil])

theorem named_of_incoming {args : List Bytes} {key : Bytes} {version : Version}
    (brings : incoming args = some (key, version)) :
    ∃ first kind, args.head? = some first ∧ Command.named (upper first) = .inRoom kind ∧
      (kind = .crdtmerge ∧ upper first = ascii "CRDTMERGE" ∨
        kind = .crdtdel ∧ upper first = ascii "CRDTDEL") := by
  have merge : Command.named (ascii "CRDTMERGE") = .inRoom .crdtmerge := by decide
  have delete : Command.named (ascii "CRDTDEL") = .inRoom .crdtdel := by decide
  unfold incoming at brings
  split at brings
  · split at brings
    · rename_i first _ _ _ command
      exact ⟨first, .crdtdel, rfl, command ▸ delete, .inr ⟨rfl, command⟩⟩
    · cases brings
  · split at brings
    · rename_i first _ _ _ _ command
      exact ⟨first, .crdtmerge, rfl, command ▸ merge, .inl ⟨rfl, command⟩⟩
    · cases brings
  · split at brings
    · rename_i first _ _ _ _ _ command
      exact ⟨first, .crdtmerge, rfl, command.1 ▸ merge, .inl ⟨rfl, command.1⟩⟩
    · cases brings
  · cases brings

theorem replicates_runInRoom (wellFormed : db.WellFormed) (awake : db.Awake name)
    {args : List Bytes} {first : Bytes} (head : args.head? = some first) {kind : RoomCommand}
    (named : Command.named (upper first) = .inRoom kind)
    (replicated : kind = .crdtmerge ∨ kind = .crdtdel) (resp3 : Bool) :
    Replicates now db name args (db.runInRoom now resp3 name args kind) := by
  rcases replicated with rfl | rfl
  · exact replicates_merge wellFormed awake head (named_crdtmerge named)
  · exact replicates_delete wellFormed awake head (named_crdtdel named)

/-- A version is stale against the content of a node as `stale` finds it. -/
theorem stale_touch (db : Db) (now ts : Nat) (log : List AofRecord) (place : Place)
    (version : Version) :
    (({ db.node with log }.observe ts).touch now place).stale place version =
      db.stale place.1 place.2 ((db.held place).filter fun record => !record.expired now)
        version := by
  unfold Node.stale Db.stale
  rw [Node.touch, Node.hold_held, if_pos rfl]
  rfl

/-- What a replicated command appends. -/
theorem appended_replicated (sane : Sane config db) {first : Bytes}
    (head : call.args.head? = some first) {kind : RoomCommand}
    (named : Command.named (upper first) = .inRoom kind)
    (replicated : kind = .crdtmerge ∨ kind = .crdtdel) (listening : call.subscribed = false) :
    (db.appended call = [] ∧ ∀ key version, ¬ db.Imports call key version) ∨
      ∃ key record, db.appended call = [record] ∧ db.Imports call key record.version := by
  rcases execute_inRoom sane head named listening with
    ⟨closed, _, node⟩ | ⟨opens, awake, entered, _, node⟩
  · exact .inl ⟨appended_nil head (congrArg Node.log node), fun _ _ imports => closed imports.opens⟩
  · rcases node_beginCommand sane call with ⟨log, begun⟩
    have sameLog : (db.beginCommand call).aof = log := congrArg Node.log begun
    have outcome : Replicates call.now awake (db.clientRoom call.clientFd) call.args _ :=
      replicates_runInRoom entered.wellFormed entered.awake head named replicated call.resp3
    have sameNear : ∀ version, awake.Near call.now version ↔ db.Near call.now version := by
      intro version
      unfold Near
      rw [entered.config]
    rcases outcome with ⟨same, far⟩ | ⟨key, version, record, change, brings, near, offered, place,
      rfl⟩
    · refine .inl ⟨appended_nil head ?_, fun key version imports =>
        far key version imports.brings ((sameNear version).mpr imports.near)⟩
      refine (congrArg Node.log node).trans ?_
      rw [same]
      exact congrArg Node.log entered.node
    · have carried : change.version = record.version :=
        AofRecord.version_of_mem_changes (offered.single ▸ List.mem_singleton_self change)
      have grown : (db.execute call).1.aof =
          (awake.node.offer awake.config call.now record change).log :=
        congrArg Node.log (node.trans offered.acts.node)
      rw [entered.node, begun, Node.offer_eq, stale_touch, place, carried] at grown
      by_cases stale : db.stale (db.clientRoom call.clientFd) key
          ((db.held (db.clientRoom call.clientFd, key)).filter fun held =>
            !held.expired call.now) record.version = true
      · rw [if_pos stale] at grown
        refine .inl ⟨appended_nil head (grown.trans sameLog.symm), ?_⟩
        intro other version imports
        have same := imports.brings.symm.trans brings
        cases same
        cases stale.symm.trans imports.newer
      · rw [if_neg stale] at grown
        refine .inr ⟨key, record, appended_of_log head [record] ?_, brings, (sameNear _).mp near,
          listening, opens, Bool.not_eq_true _ ▸ stale⟩
        rw [grown, sameLog]
        rfl

/-- The command is not one of the two that replicate. -/
def Domestic (call : Call) : Prop :=
  ∀ first, call.args.head? = some first →
    upper first ≠ ascii "CRDTMERGE" ∧ upper first ≠ ascii "CRDTDEL"

end Db

/-- The node and the frontier of a well-formed `REPLFRONTIER`. -/
def announcing : List Bytes → Option (Nat × Nat)
  | [_, nodeArg, frontierArg] =>
      match parseU64 nodeArg, parseU64 frontierArg with
      | some node, some frontier => if uint32Max < node then none else some (node, frontier)
      | _, _ => none
  | _ => none

/-- What a command announces. -/
def Call.announces (call : Call) : Option (Nat × Nat) :=
  match call.args with
  | [] => none
  | first :: _ =>
      if Command.named (upper first) = .connection .replfrontier ∧ call.subscribed = false then
        announcing call.args
      else none

namespace Db

variable {config : Config} {db : Db} {call : Call}

/-- A record of the node's own: the command is not a replicated one, and the
version is above the clock. -/
structure Originates (db : Db) (call : Call) (record : AofRecord) : Prop where
  domestic : Domestic call
  origin : record.nodeId = db.config.nodeId
  fresh : db.clock < record.timestampMs

theorem domestic_of_named {first : Bytes} (head : call.args.head? = some first)
    {kind : RoomCommand} (named : Command.named (upper first) = .inRoom kind)
    (own : kind ≠ .crdtmerge ∧ kind ≠ .crdtdel) : Domestic call := by
  have merge : Command.named (ascii "CRDTMERGE") = .inRoom .crdtmerge := by decide
  have delete : Command.named (ascii "CRDTDEL") = .inRoom .crdtdel := by decide
  intro other here
  cases here.symm.trans head
  constructor
  · intro command
    rw [command, merge] at named
    cases named
    exact own.1 rfl
  · intro command
    rw [command, delete] at named
    cases named
    exact own.2 rfl

/-- Every record that a command appends is the node's own, or one that the
command imports. -/
theorem appended_cases (sane : Sane config db) (call : Call) {record : AofRecord}
    (member : record ∈ db.appended call) :
    db.Originates call record ∨ ∃ key, db.Imports call key record.version := by
  cases args : call.args with
  | nil =>
      rw [appended, args] at member
      cases member
  | cons first rest =>
      have head : call.args.head? = some first := by
        rw [args]
        rfl
      have begun := sane.begun call
      have executed : db.execute call = (db.beginCommand call).dispatch call (upper first) := by
        unfold execute
        rw [args]
      have form : ((db.beginCommand call).setClientRoom call.clientFd
          ((db.beginCommand call).clientRoom call.clientFd)).WellFormed :=
        ⟨begun.wellFormed.exclusive, begun.wellFormed.asleep⟩
      have quiet : (db.execute call).1.aof = (db.beginCommand call).aof →
          db.Originates call record ∨ ∃ key, db.Imports call key record.version := by
        intro same
        rw [appended_nil head same] at member
        cases member
      cases named : Command.named (upper first) with
      | elsewhere =>
          apply quiet
          rw [executed, dispatch, named]
          rfl
      | connection kind =>
          apply quiet
          have same := aof_runConnection form call (upper first) kind
          rw [executed, dispatch, named]
          cases kind <;> first | exact same | (dsimp only; split; rfl; exact same)
      | inRoom kind =>
          cases listening : call.subscribed with
          | true =>
              apply quiet
              rw [executed, dispatch, named]
              simp only [listening, if_true]
              rfl
          | false =>
              by_cases replicated : kind = .crdtmerge ∨ kind = .crdtdel
              · rcases appended_replicated sane head named replicated listening with
                  ⟨none, _⟩ | ⟨key, only, appends, imports⟩
                · rw [none] at member
                  cases member
                · rw [appends, List.mem_singleton] at member
                  rw [member]
                  exact .inr ⟨key, imports⟩
              · rcases execute_inRoom sane head named listening with
                  ⟨_, _, node⟩ | ⟨_, awake, entered, _, node⟩
                · exact quiet (congrArg Node.log node)
                · rcases node_beginCommand sane call with ⟨log, started⟩
                  have served : Serves Node.Local call.now awake _ :=
                    serves_ownCommand entered.wellFormed entered.awake call.resp3 head named
                      (not_or.mp replicated)
                  rcases Node.locals_log served.steps with ⟨new, grown, own⟩
                  rw [← node, entered.node] at grown
                  rw [appended_of_log head new grown] at member
                  rcases own record member with ⟨origin, above⟩
                  rw [entered.config] at origin
                  rw [entered.node, started] at above
                  exact .inl ⟨domestic_of_named head named (not_or.mp replicated), origin, above⟩

/-- What a command imports it appends. -/
theorem appended_of_imports (sane : Sane config db) {key : Bytes} {version : Version}
    (imports : db.Imports call key version) :
    ∃ record, db.appended call = [record] ∧ record.version = version := by
  rcases named_of_incoming imports.brings with ⟨first, kind, head, named, command⟩
  rcases appended_replicated sane head named (command.imp And.left And.left)
      imports.listening with ⟨_, nothing⟩ | ⟨other, record, appends, again⟩
  · exact absurd imports (nothing key version)
  · have same := again.brings.symm.trans imports.brings
    exact ⟨record, appends, (Prod.ext_iff.mp (Option.some.inj same)).2⟩

end Db

end SomniumDB
