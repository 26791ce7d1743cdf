import SomniumDB.Core.Persistence

/-! # Dispatching commands (`database.cpp`)

`SUBSCRIBE`, `UNSUBSCRIBE`, `PUBLISH` and `INFO` touch no room, no record and no
log; their replies are those of `Service.execute`. -/

namespace SomniumDB

open Bytes

structure Call where
  clientFd : Nat
  args : List Bytes
  now : Nat
  resp3 : Bool := false
  /-- The connection is in the subscribe mode of RESP2. -/
  subscribed : Bool := false
  /-- The log has grown enough for a rewrite (`rewrite_due`). -/
  rewriteDue : Bool := false
  /-- The keys that eviction picks after the command. -/
  victims : List Bytes := []

inductive RoomCommand
  | get | set | del | crdtmerge | crdtdel | mget | mset | exist
  | expire | pexpire | persist | ttl | pttl | save | unknown
  deriving DecidableEq, Repr

inductive ConnectionCommand
  | ping | echo | command | room | rooms | replfrontier | rewriteaof | compact
  deriving DecidableEq, Repr

inductive Command
  | inRoom (kind : RoomCommand)
  | connection (kind : ConnectionCommand)
  /-- Pub/Sub and `INFO`. -/
  | elsewhere
  deriving DecidableEq, Repr

/-- The table of commands (`kCommands`). -/
def Command.table : List (Bytes × Command) :=
  [(ascii "SUBSCRIBE", .elsewhere), (ascii "UNSUBSCRIBE", .elsewhere),
    (ascii "PING", .connection .ping), (ascii "PUBLISH", .elsewhere),
    (ascii "COMMAND", .connection .command), (ascii "ECHO", .connection .echo),
    (ascii "INFO", .elsewhere), (ascii "ROOM", .connection .room),
    (ascii "ROOMS", .connection .rooms),
    (ascii "REPLFRONTIER", .connection .replfrontier),
    (ascii "REWRITEAOF", .connection .rewriteaof),
    (ascii "COMPACT", .connection .compact),
    (ascii "GET", .inRoom .get), (ascii "SET", .inRoom .set), (ascii "DEL", .inRoom .del),
    (ascii "CRDTMERGE", .inRoom .crdtmerge), (ascii "CRDTDEL", .inRoom .crdtdel),
    (ascii "MGET", .inRoom .mget), (ascii "MSET", .inRoom .mset),
    (ascii "EXISTS", .inRoom .exist), (ascii "EXPIRE", .inRoom .expire),
    (ascii "PEXPIRE", .inRoom .pexpire), (ascii "PERSIST", .inRoom .persist),
    (ascii "TTL", .inRoom .ttl), (ascii "PTTL", .inRoom .pttl),
    (ascii "SAVE", .inRoom .save)]

/-- Every `ROOM.` name is one family, and an unknown command runs in the
client's room. -/
def Command.named (name : Bytes) : Command :=
  if (ascii "ROOM.").isPrefixOf name then .connection .rooms
  else (Command.table.lookup name).getD (.inRoom .unknown)

/-- The handler of a command that runs in a room. -/
def Keyspace.runInRoom {S : Type} [Keyspace S] (state : S) (now : Nat) (resp3 : Bool)
    (name : Bytes) (args : List Bytes) : RoomCommand → S × Bytes
  | .get => handleGet state now resp3 name args
  | .set => handleSet state now resp3 name args
  | .del => handleDel state now name args
  | .crdtmerge => handleCrdtmerge state now name args
  | .crdtdel => handleCrdtdel state now name args
  | .mget => handleMget state now resp3 name args
  | .mset => handleMset state now name args
  | .exist => handleExists state now name args
  | .expire => handleExpire state now name args 1000
  | .pexpire => handleExpire state now name args 1
  | .persist => handleExpire state now name args 0
  | .ttl => handleTtl state now name args false
  | .pttl => handleTtl state now name args true
  | .save => (state, ascii "+OK AOF is active and up to date\r\n")
  | .unknown => (state, ascii "-ERR unknown command\r\n")

namespace Db

def runInRoom (db : Db) (now : Nat) (resp3 : Bool) (name : Bytes) (args : List Bytes)
    (command : RoomCommand) : Db × Bytes :=
  Keyspace.runInRoom db now resp3 name args command

/-- `execute_in_room`: the room awake, the handler, then eviction. -/
def executeInRoomWith (db : Db) (run : Db → Db × Bytes) (call : Call) (name : Bytes) :
    Db × Bytes :=
  match (db.findRoom name).activate call.now name false with
  | (refused, false) => (refused, roomsFull)
  | (awake, true) =>
      let (handled, reply) := run awake
      (handled.evictDespisedKeys name call.victims, reply)

def executeInRoom (db : Db) (call : Call) (name : Bytes) (command : RoomCommand) :
    Db × Bytes :=
  db.executeInRoomWith (fun awake => awake.runInRoom call.now call.resp3 name call.args command)
    call name

def handlePing (args : List Bytes) (subscribed : Bool) : Bytes :=
  if 2 < args.length then wrongArguments (ascii "PING")
  else if subscribed then
    ascii "*2\r\n$4\r\npong\r\n" ++ Resp.bulk (args[1]?.getD [])
  else (args[1]?.map Resp.bulk).getD (ascii "+PONG\r\n")

/-- The handler of a command that runs without a room. -/
def runConnection (db : Db) (call : Call) (name : Bytes) :
    ConnectionCommand → Db × Bytes
  | .ping => (db, handlePing call.args call.subscribed)
  | .echo =>
      (db, if call.args.length = 2 then Resp.bulk (call.args[1]?.getD [])
        else wrongArguments (ascii "ECHO"))
  | .command => (db, ascii "*0\r\n")
  | .room => db.handleRoom call.now call.clientFd call.args
  | .rooms => db.handleRoomAdmin call.now call.resp3 name call.args
  | .replfrontier => db.handleReplfrontier call.now call.args
  | .rewriteaof => db.startBackgroundRewrite
  | .compact =>
      let (compacted, reclaimed) := db.compact call.now
      (compacted, integer reclaimed)

/-- The work at the start of every command: a finished rewrite is committed,
and one that is due is started. -/
def beginCommand (db : Db) (call : Call) : Db :=
  let settled := db.finishBackgroundRewrite
  if settled.rewriteChild.isNone && call.rewriteDue then settled.startBackgroundRewrite.1
  else settled

/-- The command itself, in the client's room or on the connection. -/
def dispatch (db : Db) (call : Call) (name : Bytes) : Db × Bytes :=
  let current := db.clientRoom call.clientFd
  let known := db.setClientRoom call.clientFd current
  match Command.named name with
  | .elsewhere => (known, [])
  | .connection .ping => known.runConnection call name .ping
  | .connection kind =>
      if call.subscribed then
        (known, ascii "-ERR Clientul este in mod SUBSCRIBE. Nu poti trimite comenzi de Database!\r\n")
      else known.runConnection call name kind
  | .inRoom kind =>
      if call.subscribed then
        (known, ascii "-ERR Clientul este in mod SUBSCRIBE. Nu poti trimite comenzi de Database!\r\n")
      else known.executeInRoom call current kind

def execute (db : Db) (call : Call) : Db × Bytes :=
  match call.args with
  | [] => (db, [])
  | first :: _ => (db.beginCommand call).dispatch call (upper first)

end Db

end SomniumDB
