import SomniumDB.Core.Runs
import SomniumDB.Storage.Replicator

/-! # Delivering a pipeline (`deliver`, and `execute` on the peer)

The peer executes the commands of a pipeline one by one, on the connection of
the replicator. Before each of them its other clients, its watchdog and its
rewrites may have done anything. -/

namespace SomniumDB

open Bytes Replicator

/-- How one command of a pipeline reaches the peer: what the peer did before,
and what its `execute` is given besides the command. -/
structure Arrival where
  before : List Event := []
  now : Nat
  rewriteDue : Bool := false
  victims : List Bytes := []

def Arrival.call (arrival : Arrival) (fd : Nat) (args : List Bytes) : Call :=
  { clientFd := fd
    args
    now := arrival.now
    rewriteDue := arrival.rewriteDue
    victims := arrival.victims }

/-- An event that leaves the connection `fd` alone. -/
def Event.Foreign (fd : Nat) : Event → Prop
  | .command call => call.clientFd ≠ fd
  | .cleanup _ other => other ≠ fd
  | .restart _ => False
  | _ => True

def Arrival.Foreign (fd : Nat) (arrival : Arrival) : Prop :=
  ∀ event ∈ arrival.before, event.Foreign fd

/-- One execution on the peer: its state when the command arrives, the command
of the pipeline and the call. -/
structure Execution where
  before : Db
  item : Item
  call : Call

namespace Db

/-- The commands that arrive on the connection `fd`, with the replies. Those
that do not arrive are missing at the end. -/
def deliver (fd : Nat) : Db → List (List Bytes × Arrival) → Db × List Bytes
  | db, [] => (db, [])
  | db, (args, arrival) :: rest =>
      let (next, reply) := (db.run arrival.before).execute (arrival.call fd args)
      let (final, replies) := next.deliver fd rest
      (final, reply :: replies)

/-- The executions of the items that arrive. -/
def executions (fd : Nat) : Db → List (Item × Arrival) → List Execution
  | _, [] => []
  | db, (item, arrival) :: rest =>
      let before := db.run arrival.before
      let call := arrival.call fd item.args
      { before, item, call } :: (before.execute call).1.executions fd rest

/-- The room in which `execute_in_room` runs the handler of a call, if it comes
to that. -/
def ranIn (db : Db) (call : Call) : Option Bytes :=
  match call.args with
  | [] => none
  | first :: _ =>
      match Command.named (upper first) with
      | .inRoom _ =>
          let begun := db.beginCommand call
          let current := begun.clientRoom call.clientFd
          let known := begun.setClientRoom call.clientFd current
          if !call.subscribed && ((known.findRoom current).activate call.now current false).2 then
            some current
          else none
      | _ => none

/-- What `wake_room` asks for: a valid name, a place in the registry, and a
place among the active rooms within the memory budget. -/
def Admits (db : Db) (name : Bytes) : Prop :=
  validRoomName name = true ∧
    (name ∈ db.rooms ∨ db.rooms.toPairs.length < db.config.maxRooms) ∧
    ((db.room name).state = .active ∨
      db.activeRooms < maxActiveRooms ∧
        db.fits (Room.keysCost { db.room name with keys := db.wakeupRoom name }) = true)

end Db

/-- The states of one connection of the replicator of `nodeId`, and of the peer
it is connected to: opened when the peer does not know the connection yet, then
used for any number of rounds over whatever the log contains. A round in which
a reply is missing closes the connection. -/
inductive Session (nodeId : Nat) (config : Config) (fd : Nat) : Peer → Db → Prop
  | opened {db : Db} (peer : Peer) (reachable : Reachable config db)
      (unknown : db.clientRooms.lookup fd = none) :
      Session nodeId config fd { peer with connected := true, room := [] } db
  | elsewhere {peer : Peer} {db : Db} (session : Session nodeId config fd peer db)
      (event : Event) (foreign : event.Foreign fd) :
      Session nodeId config fd peer (db.step event)
  | shipped {peer : Peer} {db : Db} (session : Session nodeId config fd peer db)
      (frontier : Nat) (file : AofFile) (arrivals : List Arrival)
      (foreign : ∀ arrival ∈ arrivals, arrival.Foreign fd)
      (complete : arrivals.length = (prepare nodeId frontier peer file).2.commands.length) :
      Session nodeId config fd
        (settle (prepare nodeId frontier peer file).1 (prepare nodeId frontier peer file).2
          (some (db.deliver fd
            ((prepare nodeId frontier peer file).2.commands.zip arrivals)).2))
        (db.deliver fd ((prepare nodeId frontier peer file).2.commands.zip arrivals)).1

end SomniumDB
