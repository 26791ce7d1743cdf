import SomniumDB.Core.Execute
import SomniumDB.Core.PubSub

/-! # The whole of `execute` (`database.cpp`)

The commands on the database together with Pub/Sub and `INFO`, and the replies when a
file operation fails. -/

namespace SomniumDB

open Bytes

/-- What may fail of the files and of the process while a command runs. -/
inductive Failure
  /-- `healthy` says that an earlier write to the log failed. -/
  | log
  /-- The snapshot of a room cannot be written. -/
  | snapshot
  /-- The cold file cannot be rewritten. -/
  | compaction
  /-- `start_rewrite` cannot create the new log. -/
  | rewrite
  /-- `fork` fails. -/
  | fork
  deriving DecidableEq, Repr

namespace Db

/-- `SAVE` does not confirm a log that is suspect. -/
def saveUnhealthy (db : Db) (call : Call) (name : Bytes) : Db × Bytes :=
  match (db.findRoom name).activate call.now name false with
  | (refused, false) => (refused, roomsFull)
  | (awake, true) =>
      (awake.evictDespisedKeys name call.victims,
        ascii "-ERR AOF write error, persistenta suspecta\r\n")

/-- `ROOM.HIBERNATE` of a room whose snapshot cannot be written. -/
def hibernateUnsaved (db : Db) (call : Call) (command : Bytes) : Db × Bytes :=
  match call.args with
  | [_, name] =>
      if command = ascii "ROOM.HIBERNATE" ∧ name ∈ db.rooms ∧ name ≠ defaultRoom ∧
          (db.room name).state = .active then
        (db.hibernateFailed name, ascii "-ERR snapshot failed, room stays active\r\n")
      else db.handleRoomAdmin call.now call.resp3 command call.args
  | _ => db.handleRoomAdmin call.now call.resp3 command call.args

/-- The handler of a command that needs what has failed; none when it does not. -/
def runFailing (db : Db) (call : Call) (command room : Bytes) : Failure → Option (Db × Bytes)
  | .log =>
      if Command.named command = .inRoom .save then some (db.saveUnhealthy call room) else none
  | .snapshot =>
      if Command.named command = .connection .rooms then some (db.hibernateUnsaved call command)
      else none
  | .compaction =>
      if Command.named command = .connection .compact then
        some (db, ascii "-ERR compaction failed, previous cold file kept\r\n")
      else none
  | .rewrite =>
      if Command.named command = .connection .rewriteaof ∧ db.rewriteChild.isNone then
        some (db, ascii "-ERR AOF rewrite failed, previous AOF kept\r\n")
      else none
  | .fork =>
      if Command.named command = .connection .rewriteaof ∧ db.rewriteChild.isNone then
        some (db.discardActiveSnapshots,
          ascii "-ERR AOF rewrite failed (fork), previous AOF kept\r\n")
      else none

/-- `execute` on the database when something may fail. -/
def executeFailing (db : Db) (call : Call) (failure : Option Failure) : Db × Bytes :=
  match call.args, failure with
  | first :: _, some failure =>
      let begun := db.beginCommand call
      let room := begun.clientRoom call.clientFd
      let known := begun.setClientRoom call.clientFd room
      if call.subscribed then db.execute call
      else (known.runFailing call (upper first) room failure).getD (db.execute call)
  | _, _ => db.execute call

end Db

/-- A command as it reaches `execute`. -/
structure Request where
  clientFd : Nat
  args : List Bytes
  now : Nat
  resp3 : Bool := false
  rewriteDue : Bool := false
  victims : List Bytes := []
  /-- The text that `INFO` puts together from counters. -/
  info : Bytes := []
  failure : Option Failure := none

structure Service where
  db : Db
  pubsub : PubSub := {}

/-- What a command leaves, its reply, and the messages for other clients. -/
structure Outcome where
  service : Service
  reply : Bytes
  messages : List (Nat × Bytes) := []

namespace Service

/-- On RESP2 a client with subscriptions is restricted to Pub/Sub. -/
def restricted (service : Service) (request : Request) : Bool :=
  !request.resp3 && service.pubsub.isSubscribed request.clientFd

def callOf (service : Service) (request : Request) : Call :=
  { clientFd := request.clientFd
    args := request.args
    now := request.now
    resp3 := request.resp3
    subscribed := service.restricted request
    rewriteDue := request.rewriteDue
    victims := request.victims }

/-- The loop of `handle_subscribe`. -/
def subscribeLoop (pubsub : PubSub) (clientFd : Nat) (resp3 : Bool) :
    Bytes → List Bytes → PubSub × Bytes
  | replies, [] => (pubsub, replies)
  | replies, channel :: rest =>
      let (joined, reply) := pubsub.subscribe clientFd channel resp3
      subscribeLoop joined clientFd resp3 (replies ++ reply) rest

def handleSubscribe (pubsub : PubSub) (clientFd : Nat) (args : List Bytes) (resp3 : Bool) :
    PubSub × Bytes :=
  if args.length < 2 then (pubsub, wrongArguments (ascii "SUBSCRIBE"))
  else subscribeLoop pubsub clientFd resp3 [] args.tail

def handlePublish (pubsub : PubSub) (args : List Bytes) : List (Nat × Bytes) × Bytes :=
  match args with
  | _ :: channel :: message :: _ => pubsub.publish channel message
  | _ => ([], wrongArguments (ascii "PUBLISH"))

def execute (service : Service) (request : Request) : Outcome :=
  let call := service.callOf request
  let (db, reply) := service.db.executeFailing call request.failure
  match request.args with
  | [] => { service := { service with db }, reply }
  | first :: _ =>
      if upper first = ascii "SUBSCRIBE" then
        let (pubsub, reply) :=
          handleSubscribe service.pubsub request.clientFd request.args request.resp3
        { service := { db, pubsub }, reply }
      else if upper first = ascii "UNSUBSCRIBE" then
        let (pubsub, reply) :=
          service.pubsub.unsubscribe request.clientFd request.args.tail request.resp3
        { service := { db, pubsub }, reply }
      else if upper first = ascii "PUBLISH" then
        let (messages, reply) := handlePublish service.pubsub request.args
        { service := { service with db }, reply, messages }
      else if upper first = ascii "INFO" then
        { service := { service with db }
          reply :=
            if call.subscribed then ascii
              "-ERR Clientul este in mod SUBSCRIBE. Nu poti trimite comenzi de Database!\r\n"
            else Resp.bulk request.info }
      else { service := { service with db }, reply }

end Service

end SomniumDB
