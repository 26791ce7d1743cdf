import SomniumDB.Properties.LogFile
import SomniumDB.Storage.ReplyLines

/-! # The log and the worker of a peer together

The worker reads the log while the manager appends to it and replaces it, and
the process may be killed at any time. What the peer has accepted is kept in a
ledger of its own. -/

namespace SomniumDB

open Bytes Resp Replicator

/-- The items of a round to which the peer has answered with success, as far as
the worker has read all the replies. -/
def acceptedItems (round : Round) (outcome : ShipOutcome) : List Item :=
  match (if outcome.sent then
      replyLines round.commands.length (receivedText outcome.chunks) else none) with
  | none => []
  | some lines =>
      (round.items.zip lines).filterMap fun pair =>
        if pair.2.head? = some 43 then some pair.1 else none

/-- The log of a node with the worker of one peer. The ledger and the accepted
items are kept for the statements only. -/
structure Link where
  manager : AofManager := {}
  ledger : Ledger := {}
  /-- The inode of the log. -/
  inode : Nat := 0
  worker : PeerWorker := {}
  accepted : List Item := []

inductive LinkEvent
  /-- A call of the manager; `inode` is that of a file it puts in place. -/
  | call (call : AofCall) (inode : Nat)
  | turn (outcome : ShipOutcome)
  /-- The process is killed and starts again on what it has left. -/
  | restart

namespace Link

/-- The log as the worker finds it. -/
def file (link : Link) : Option AofFile :=
  link.manager.file.map fun bytes => { inode := link.inode, bytes }

/-- The call creates the log or puts another file in its place. -/
def Replaces (manager : AofManager) (call : AofCall) : Prop :=
  manager.file = none ∨ ∃ outcome, call = .commitRewrite outcome ∧ manager.Commits outcome

instance (manager : AofManager) (call : AofCall) : Decidable (Replaces manager call) :=
  match call with
  | .commitRewrite outcome =>
      decidable_of_iff (manager.file = none ∨ manager.Commits outcome) <| by
        simp [Replaces]
  | .openFile _ | .append _ _ | .startRewrite _ _ | .appendRewrite _ _ | .appendTail _ _ _
  | .abortRewrite =>
      decidable_of_iff (manager.file = none) <| by
        simp [Replaces]

/-- The items that a turn gets accepted. -/
def turnAccepted (nodeId : Nat) (link : Link) (outcome : ShipOutcome) : List Item :=
  match link.file with
  | none => []
  | some file =>
      if !outcome.opened || (!link.worker.peer.connected && !outcome.connects) then []
      else acceptedItems (shipRound nodeId link.worker.peer file outcome).2 outcome

def step (nodeId : Nat) (link : Link) : LinkEvent → Link
  | .call call inode =>
      { link with
        manager := link.manager.step call
        ledger := link.manager.recorded link.ledger call
        inode := if Replaces link.manager call then inode else link.inode }
  | .turn outcome =>
      { link with
        worker := link.worker.turn nodeId link.file outcome
        accepted := link.accepted ++ link.turnAccepted nodeId outcome }
  | .restart =>
      { link with
        manager :=
          { file := (AofRecovery.recover link.manager.file).file, tmp := link.manager.tmp }
        ledger := { log := link.ledger.log }
        worker := .load link.worker.saved }

def run (nodeId : Nat) (link : Link) (events : List LinkEvent) : Link :=
  events.foldl (step nodeId) link

end Link

end SomniumDB
