import SomniumDB.Abstract.Cell
import SomniumDB.Abstract.Executed

/-! # Readers and the watchdog

A command that only looks keys up, and a visit of the watchdog, remove expired
records and do nothing else to what a node has under a place. -/

namespace SomniumDB

open Bytes

/-- The commands that look keys up and write none. -/
def RoomCommand.reads : RoomCommand → Bool
  | .get | .mget | .exist | .ttl | .pttl => true
  | _ => false

/-- A command that looks keys up, in any room, or a visit of the watchdog. -/
def Event.Quiet : Event → Prop
  | .command call => ∃ first kind, call.args.head? = some first ∧
      Command.named (upper first) = .inRoom kind ∧ kind.reads = true
  | .cleanExpired _ _ => True
  | _ => False

namespace Db

/-- A command is executed in a room: it is not refused. -/
structure Executes (db : Db) (room : Bytes) (call : Call) : Prop where
  listening : call.subscribed = false
  room : db.clientRoom call.clientFd = room
  accepted : (db.execute call).2.head? = some 43

section Readers

variable {db : Db} {config : Config}

theorem serves_reader {now : Nat} {name : Bytes} (wellFormed : db.WellFormed)
    (awake : db.Awake name) (resp3 : Bool) (args : List Bytes) {kind : RoomCommand}
    (reads : kind.reads = true) :
    Serves Node.Shed now db (db.runInRoom now resp3 name args kind).1 := by
  cases kind with
  | get => exact serves_handleGet wellFormed awake resp3 args
  | mget => exact serves_handleMget wellFormed awake resp3 args
  | exist => exact serves_handleExists wellFormed awake args
  | ttl => exact serves_handleTtl wellFormed awake args false
  | pttl => exact serves_handleTtl wellFormed awake args true
  | _ => exact absurd reads (by decide)

/-- A reader only removes expired records. -/
theorem shed_reader (sane : Sane config db) {call : Call} {first : Bytes} {kind : RoomCommand}
    (head : call.args.head? = some first) (named : Command.named (upper first) = .inRoom kind)
    (reads : kind.reads = true) :
    Relation.ReflTransGen (Node.Shed db.config call.now) (db.beginCommand call).node
      (db.execute call).1.node := by
  cases listening : call.subscribed with
  | true =>
      rcases List.head?_eq_some_iff.mp head with ⟨rest, args⟩
      have refused : (db.execute call).1.node = (db.beginCommand call).node := by
        unfold execute
        rw [args]
        simp only [dispatch, named, listening, if_true]
        rfl
      rw [refused]
  | false =>
      rcases execute_inRoom sane head named listening with
        ⟨_, _, node⟩ | ⟨_, awake, entered, _, node⟩
      · rw [node]
      · have served : Serves Node.Shed call.now awake _ :=
          serves_reader entered.wellFormed entered.awake call.resp3 call.args reads
        rw [node, ← entered.node, ← entered.config]
        exact served.steps

/-- What a reader or the watchdog does under one place. -/
theorem cell_quiet (sane : Sane config db) {event : Event} (quiet : event.Quiet)
    (place : Place) :
    ∃ held, Node.Drops event.now (db.held place) held ∧
      (db.step event).node.cell place = { db.node.cell place with held } ∧
      (db.step event).watermark = db.watermark := by
  cases event with
  | command call =>
      rcases quiet with ⟨first, kind, head, named, reads⟩
      rcases node_beginCommand sane call with ⟨log, begun⟩
      have shed := shed_reader sane head named reads
      rw [begun] at shed
      rcases Node.drops_shed shed place with ⟨drops, tomb, watermark⟩
      exact ⟨(db.execute call).1.held place, drops, Cell.ext rfl tomb, watermark⟩
  | cleanExpired now name =>
      have drops := drops_cleanExpiredKeys sane.wellFormed now name place
      have same : (db.cleanExpiredKeys now name).node =
          { db.node with held := (db.cleanExpiredKeys now name).held } := by
        unfold cleanExpiredKeys
        by_cases unknown : name ∉ db.rooms
        · rw [if_pos unknown]
          rfl
        · rw [if_neg unknown]
          rfl
      exact ⟨(db.cleanExpiredKeys now name).held place, drops,
        congrArg (fun node => node.cell place) same, congrArg Node.watermark same⟩
  | cleanup => exact quiet.elim
  | hibernateInactive => exact quiet.elim
  | childStep => exact quiet.elim
  | childFail => exact quiet.elim
  | restart => exact quiet.elim

end Readers

end Db

end SomniumDB
