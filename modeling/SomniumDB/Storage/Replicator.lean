import SomniumDB.Core.Commands

/-! # The replicator (`replicator.cpp`)

For each peer a worker reads the local log from a saved offset, turns the
records of this node into one pipeline of replicated commands, sends it, and
moves the offset to the last record that the peer has confirmed. Authentication
and TLS are not modelled: a connection on which they fail is closed before
anything is sent. -/

namespace SomniumDB

open Bytes FsUtil

/-- The append-only file: its header and the encoded records. -/
def aofHeader : Bytes :=
  ascii "*2\r\n$11\r\nSOMNIUM-AOF\r\n$1\r\n3\r\n"

def aofBytes (log : List AofRecord) : Bytes :=
  aofHeader ++ log.flatMap AofRecord.encodeRecord

/-- The file as `open` and `fstat` find it. -/
structure AofFile where
  inode : Nat
  bytes : Bytes

namespace Replicator

def kMaxBatchBytes : Nat := 4 * 1024 * 1024

/-- `Peer`, without the measurements of its heartbeat. -/
structure Peer where
  /-- A connection is open. -/
  connected : Bool := false
  inode : Nat := 0
  offset : Nat := 0
  /-- The room selected on the connection; empty: unknown. -/
  room : Bytes := []

/-- One command of a pipeline, with the room named by the record it was built
from. -/
inductive Item
  | room (name : Bytes)
  | data (room : Bytes) (args : List Bytes)
  deriving DecidableEq, Repr

def Item.args : Item → List Bytes
  | .room name => [ascii "ROOM", name]
  | .data _ args => args

/-- The commands that replicate one record, given as its tokens
`[room, CMD, args..., META, expire, ts, node]`: none for the header and for the
records of other nodes, one for each pair of an `MSET`, else one. -/
def recordCommands (nodeId : Nat) (tokens : List Bytes) : List (List Bytes) :=
  let n := tokens.length
  let token := fun index => tokens[index]?.getD []
  if 7 ≤ n ∧ token (n - 4) = AofRecord.kMetaToken ∧ parseU64 (token (n - 1)) = some nodeId then
    let cmd := upper (token 1)
    if cmd = ascii "DEL" ∨ cmd = ascii "CRDTDEL" then
      [[ascii "CRDTDEL", token 2, token (n - 2), token (n - 1)]]
    else
      let pairsEnd :=
        if cmd = ascii "MSET" then n - 4
        else if cmd = ascii "SET" ∨ cmd = ascii "CRDTMERGE" then 4 else 0
      (Db.pairsOf ((tokens.take pairsEnd).drop 2)).map fun pair =>
        [ascii "CRDTMERGE", pair.1, pair.2, token (n - 2), token (n - 1), token (n - 3)]
  else []

/-- What `build` accumulates: the commands, whose number is the number of
replies to expect, the room they leave selected, and after each record the
number of replies up to it and the offset behind it. -/
structure Build where
  out : List Item := []
  room : Bytes
  marks : List (Nat × Nat) := []

/-- `send`: the room is selected first where it changes. -/
def Build.send (build : Build) (room : Bytes) (args : List Bytes) : Build :=
  { build with
    out := build.out ++
      (if room ≠ build.room then [.room room, .data room args] else [.data room args])
    room }

def Build.record (build : Build) (nodeId : Nat) (tokens : List Bytes) (stop : Nat) : Build :=
  let sent := (recordCommands nodeId tokens).foldl
    (fun state args => state.send (tokens.head?.getD []) args) build
  { sent with marks := sent.marks ++ [(sent.out.length, stop)] }

/-- The loop of `build` from the position `pos` of the buffer. Every record
takes at least one byte, so the length of the buffer bounds the rounds. The
result says whether the first record is not valid RESP. -/
def buildLoop (nodeId offset : Nat) (buf : Bytes) : Nat → Nat → Build → Build × Bool
  | 0, _, build => (build, false)
  | fuel + 1, pos, build =>
      match Resp.parse buf pos with
      | .complete stop tokens =>
          buildLoop nodeId offset buf fuel stop (build.record nodeId tokens (offset + stop))
      | .needMore => (build, false)
      | .malformed => (build, pos = 0)

def build (nodeId : Nat) (peer : Peer) (buf : Bytes) : Build × Bool :=
  buildLoop nodeId peer.offset buf (buf.length + 1) 0 { room := peer.room }

/-- Another file, or one that has been truncated, is sent from its start. -/
def align (peer : Peer) (file : AofFile) : Peer :=
  if file.inode ≠ peer.inode ∨ file.bytes.length < peer.offset then
    { peer with inode := file.inode, offset := 0 }
  else peer

/-- A new connection has the default room selected. -/
def connect (peer : Peer) : Peer :=
  if peer.connected then peer else { peer with connected := true, room := [] }

/-- The batch read from the file: a single record larger than a batch is read
whole. -/
def readBatch (nodeId : Nat) (peer : Peer) (file : AofFile) : Build × Bool :=
  let rest := file.bytes.drop peer.offset
  let first := build nodeId peer (rest.take kMaxBatchBytes)
  if first.1.marks = [] ∧ !first.2 ∧ kMaxBatchBytes < rest.length then
    build nodeId peer rest
  else first

structure Round where
  items : List Item
  /-- The command that closes the pipeline: the frontier at the end of the log,
  a `PING` when there is nothing else to send. -/
  closing : Option (List Bytes)
  room : Bytes
  marks : List (Nat × Nat)

def Round.commands (round : Round) : List (List Bytes) :=
  round.items.map Item.args ++ round.closing.toList

/-- `ship` up to the delivery: the peer with its offset adjusted, and the
round. `frontier` is read before the file is opened. -/
def prepare (nodeId frontier : Nat) (peer : Peer) (file : AofFile) : Peer × Round :=
  let ready := connect (align peer file)
  let (built, misaligned) := readBatch nodeId ready file
  -- the offset is not at a record: another file with the same inode
  let ready := if misaligned ∧ 0 < ready.offset then { ready with offset := 0 } else ready
  let reachedEnd := (built.marks.getLast?.map Prod.snd).getD ready.offset = file.bytes.length
  (ready,
    { items := built.out
      closing :=
        if reachedEnd then
          some [ascii "REPLFRONTIER", decimal nodeId, decimal frontier]
        else if built.out = [] then some [ascii "PING"] else none
      room := built.room
      marks := built.marks })

/-- `deliver` counts the replies before the first that is no success. -/
def ackedOf (replies : List Bytes) : Nat :=
  (replies.takeWhile fun reply => reply.head? = some 43).length

def confirmed (acked : Nat) (marks : List (Nat × Nat)) (offset : Nat) : Nat :=
  (((marks.takeWhile fun mark => decide (mark.1 ≤ acked)).getLast?).map Prod.snd).getD offset

/-- `ship` after the delivery: `none` when the connection was lost before every
reply had been read. An error reply leaves the room unknown. -/
def settle (peer : Peer) (round : Round) (replies : Option (List Bytes)) : Peer :=
  let acked := (replies.map ackedOf).getD 0
  { peer with
    connected := replies.isSome
    room := if 0 < round.items.length then
        (if acked = round.items.length then round.room else [])
      else peer.room
    offset := confirmed acked round.marks peer.offset }

end Replicator

end SomniumDB
