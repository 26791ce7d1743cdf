import SomniumDB.Library.FiniteMap
import SomniumDB.Net.Auth

/-! # The connections of the server (`connection.cpp`, `main.cpp`)

A connection reads into one buffer and sends from another. How the calls of `read` and
`send` end is given with each event. The database is a parameter: it answers a command,
and it may have messages for subscribers delivered while it does. Connections are
without TLS. -/

namespace SomniumDB.Net

open Bytes

def readChunk : Nat := 16384

def maxCommandsPerTurn : Nat := 8192

def maxInputBuffer : Nat := 128 * 1024 * 1024

def maxUnauthBuffer : Nat := 16 * 1024

def maxReply : Nat := 32 * 1024 * 1024

structure NetConfig where
  password : Bytes := []
  maxClients : Nat := 10000
  maxClientBuffers : Nat := 2 ^ 30

/-- What the network side calls of the database, over any type of database states. -/
structure Database (σ : Type u) where
  /-- `execute`, with the messages that are delivered meanwhile and their recipients. -/
  execute : σ → Nat → List Bytes → Bool → σ × List (Nat × Bytes) × Bytes
  cleanupClient : σ → Nat → σ

/-- How a call of `send` ends. -/
inductive Send
  | sent (count : Nat)
  | interrupted
  | again
  | failed
  deriving DecidableEq, Repr

/-- How a call of `read` ends. -/
inductive ReadCall
  | got (bytes : Bytes)
  | interrupted
  | again
  | failed
  deriving DecidableEq, Repr

inductive FlushResult
  | complete
  | pending
  | dead
  deriving DecidableEq, Repr

/-- What `process_buffered` asks for. -/
inductive Turn
  | drop
  | done
  | more
  deriving DecidableEq, Repr

inductive Outcome
  | running
  /-- `QUIT` or a protocol error has been answered. -/
  | answered
  /-- The peer has ended its stream, or a call of `read` has failed. -/
  | hungUp
  deriving DecidableEq, Repr

/-- A connection. The last fields are not in the source: they record what the connection
has received, the commands it has dispatched, what it has queued and sent, and how far it
has come. -/
structure Client where
  fd : Nat
  inBuf : Bytes := []
  outBuf : Bytes := []
  outOff : Nat := 0
  closed : Bool := false
  session : Session
  /-- How much of the total of all buffers belongs to this client. -/
  held : Nat := 0
  received : Bytes := []
  dispatched : List (List Bytes) := []
  enqueued : Bytes := []
  sent : Bytes := []
  outcome : Outcome := .running

namespace Client

def connect (config : NetConfig) (fd : Nat) : Client :=
  { fd, session := { authenticated := config.password = [] } }

def pendingOut (client : Client) : Nat :=
  client.outBuf.length - client.outOff

def inputCap (client : Client) : Nat :=
  if client.session.authenticated then maxInputBuffer else maxUnauthBuffer

def outputCap (client : Client) : Nat :=
  if client.session.authenticated then maxReply else maxUnauthBuffer

/-- The bytes that count towards the budget of all buffers. -/
def buffered (client : Client) : Nat :=
  if client.closed then 0 else client.inBuf.length + client.outBuf.length

/-- The loop of `flush_output`. -/
def flushLoop (client : Client) : List Send → Client × FlushResult × List Send
  | [] =>
      if client.outOff < client.outBuf.length then (client, .pending, [])
      else (client, .complete, [])
  | send :: rest =>
      if client.outOff < client.outBuf.length then
        match send with
        | .sent count =>
            let taken := (client.outBuf.drop client.outOff).take count
            if taken = [] then (client, .dead, rest)
            else
              flushLoop
                { client with
                  outOff := client.outOff + taken.length
                  sent := client.sent ++ taken } rest
        | .interrupted => flushLoop client rest
        | .again => (client, .pending, rest)
        | .failed => (client, .dead, rest)
      else (client, .complete, send :: rest)

end Client

/-- What the event loop keeps, and the outcomes of the coming calls of `send`. -/
structure Server (σ : Type u) where
  config : NetConfig
  clients : FiniteMap Nat Client := ∅
  /-- `g_client_buffers`. -/
  clientBuffers : Int := 0
  db : σ
  sends : List Send := []
  /-- Not in the source: a cap, a budget or a time limit has been exceeded, or a call of
  `send` has failed. -/
  troubled : Bool := false

namespace Server

variable {σ : Type u}

def trouble (server : Server σ) : Server σ :=
  { server with troubled := true }

/-- A client that is not in the registry is as good as closed. -/
def client (server : Server σ) (fd : Nat) : Client :=
  (server.clients.lookup fd).getD
    { Client.connect server.config fd with closed := true }

def putClient (server : Server σ) (fd : Nat) (client : Client) : Server σ :=
  { server with clients := server.clients.insert fd client }

/-- `track`: the total follows a change of the client's buffers. -/
def track (server : Server σ) (fd : Nat) : Server σ :=
  let client := server.client fd
  { server.putClient fd { client with held := client.buffered } with
    clientBuffers := server.clientBuffers - client.held + client.buffered }

def overBufferBudget (server : Server σ) (extra : Nat) : Bool :=
  !decide (server.clientBuffers + extra ≤ server.config.maxClientBuffers)

def flushOutput (server : Server σ) (fd : Nat) : Server σ × FlushResult :=
  match (server.client fd).flushLoop server.sends with
  | (client, .complete, sends) =>
      (({ server with sends }.putClient fd { client with outBuf := [], outOff := 0 }).track fd,
        .complete)
  | (client, .pending, sends) => ({ server with sends }.putClient fd client, .pending)
  | (client, .dead, sends) => (({ server with sends }.putClient fd client).trouble, .dead)

/-- `enqueue_output`: false when the client has to be closed. -/
def enqueueOutput (server : Server σ) (fd : Nat) (data : Bytes) : Server σ × Bool :=
  let client := server.client fd
  if client.closed then (server, false)
  else if client.outputCap < client.pendingOut + data.length then (server.trouble, false)
  else if server.overBufferBudget data.length then (server.trouble, false)
  else
    ((server.putClient fd
      { client with
        outBuf := client.outBuf ++ data
        enqueued := client.enqueued ++ data }).track fd, true)

def scheduleClose (database : Database σ) (server : Server σ) (fd : Nat) : Server σ :=
  let client := server.client fd
  if client.closed then server
  else
    let closed := (server.putClient fd { client with closed := true }).track fd
    { closed with db := database.cleanupClient closed.db fd }

def asPush (message : Bytes) : Bytes :=
  match message with
  | [] => []
  | _ :: rest => 62 :: rest

def deliverPubsub (database : Database σ) (server : Server σ) (message : Nat × Bytes) :
    Server σ :=
  let client := server.client message.1
  if client.closed then server
  else
    let text := if client.session.resp3 then asPush message.2 else message.2
    match server.enqueueOutput message.1 text with
    | (refused, false) => scheduleClose database refused message.1
    | (queued, true) =>
        match queued.flushOutput message.1 with
        | (flushed, .dead) => scheduleClose database flushed message.1
        | (flushed, _) => flushed

/-! ## Commands -/

def noauth : Bytes := ascii "-NOAUTH Authentication required.\r\n"

/-- What a command is answered: `AUTH` and `HELLO` concern the connection, and until it
is authenticated nothing else reaches the database. -/
def answer (config : NetConfig) (database : Database σ) (fd : Nat) (session : Session) (db : σ)
    (args : List Bytes) : Session × σ × List (Nat × Bytes) × Bytes :=
  let name := args.headD []
  if isName name (ascii "AUTH") then
    let (changed, reply) := auth session args config.password
    (changed, db, [], reply)
  else if isName name (ascii "HELLO") then
    let (changed, reply) := hello session fd args config.password
    (changed, db, [], reply)
  else if !session.authenticated then (session, db, [], noauth)
  else
    let (changed, messages, reply) := database.execute db fd args session.resp3
    (session, changed, messages, reply)

def command (database : Database σ) (server : Server σ) (fd : Nat) (args : List Bytes) :
    Server σ × Bytes :=
  let client := server.client fd
  let (session, db, messages, reply) :=
    answer server.config database fd client.session server.db args
  let answered := { server with db }.putClient fd
    { client with session, dispatched := client.dispatched ++ [args] }
  (messages.foldl (deliverPubsub database) answered, reply)

def isQuit (args : List Bytes) : Bool :=
  args.length = 1 ∧ isName (args.headD []) (ascii "QUIT")

/-- Why the loop of `process_buffered` ends. -/
inductive LoopEnd
  | budget
  | waiting
  | malformed
  | quit
  | overflow
  deriving DecidableEq, Repr

def finish (server : Server σ) (fd : Nat) (reply : Bytes) : Server σ × Turn :=
  match server.enqueueOutput fd reply with
  | (refused, false) => (refused, .drop)
  | (queued, true) =>
      let flushed := (queued.flushOutput fd).1
      (flushed.putClient fd { flushed.client fd with outcome := .answered }, .drop)

/-- The input that has been consumed is erased once. -/
def eraseInput (server : Server σ) (fd pos : Nat) : Server σ :=
  let client := server.client fd
  (server.putClient fd { client with inBuf := client.inBuf.drop pos }).track fd

end Server

/-- What has the connections in it: the server by itself, or the event loop around it. -/
class Hosts (S : Type v) (σ : outParam (Type u)) where
  server : S → Server σ
  withServer : S → Server σ → S
  server_withServer : ∀ state other, server (withServer state other) = other
  withServer_withServer : ∀ state first second,
    withServer (withServer state first) second = withServer state second

namespace Hosts

variable {S : Type v} {σ : Type u} [Hosts S σ]

/-- The loop of `process_buffered`, with the commands left in the budget and the position
in the input. -/
def processLoop (handle : S → List Bytes → S × Bytes) (fd : Nat) :
    Nat → Nat → S → S × Nat × Server.LoopEnd
  | 0, pos, state => (state, pos, .budget)
  | budget + 1, pos, state =>
      match Resp.parseRequest ((server state).client fd).inBuf pos with
      | .needMore => (state, pos, .waiting)
      | .malformed => (state, pos, .malformed)
      | .complete stop args =>
          if Server.isQuit args then (state, stop, .quit)
          else
            let (answered, reply) := handle state args
            if reply = [] then processLoop handle fd budget stop answered
            else
              match (server answered).enqueueOutput fd reply with
              | (refused, false) => (withServer answered refused, stop, .overflow)
              | (queued, true) =>
                  processLoop handle fd budget stop (withServer answered queued)

def processBuffered (handle : S → List Bytes → S × Bytes) (state : S) (fd : Nat) : S × Turn :=
  match processLoop handle fd maxCommandsPerTurn 0 state with
  | (refused, _, .overflow) => (refused, .drop)
  | (processed, pos, .quit) =>
      let finished := ((server processed).eraseInput fd pos).finish fd (ascii "+OK\r\n")
      (withServer processed finished.1, finished.2)
  | (processed, pos, .malformed) =>
      let finished :=
        ((server processed).eraseInput fd pos).finish fd (ascii "-ERR Protocol error\r\n")
      (withServer processed finished.1, finished.2)
  | (processed, pos, ending) =>
      match ((server processed).eraseInput fd pos).flushOutput fd with
      | (flushed, .dead) => (withServer processed flushed, .drop)
      | (flushed, _) =>
          (withServer processed flushed,
            if ending = .budget ∧ (flushed.client fd).inBuf ≠ [] then .more else .done)

end Hosts

namespace Server

variable {σ : Type u}

instance : Hosts (Server σ) σ where
  server server := server
  withServer _ server := server
  server_withServer _ _ := rfl
  withServer_withServer _ _ _ := rfl

def processLoop (database : Database σ) (fd budget pos : Nat) (server : Server σ) :
    Server σ × Nat × LoopEnd :=
  Hosts.processLoop (fun server args => command database server fd args) fd budget pos server

def processBuffered (database : Database σ) (server : Server σ) (fd : Nat) : Server σ × Turn :=
  Hosts.processBuffered (fun server args => command database server fd args) server fd

/-- The client is going to be closed because nothing more comes from it. -/
def hangUp (server : Server σ) (fd : Nat) : Server σ :=
  server.putClient fd { server.client fd with outcome := .hungUp }

/-- `drain_read`: false when the client has to be closed. -/
def drainRead (server : Server σ) (fd : Nat) : List ReadCall → Server σ × Bool
  | [] => (server, true)
  | call :: rest =>
      let client := server.client fd
      if client.inputCap ≤ client.inBuf.length then (server, true)
      else
        match call with
        | .got bytes =>
            let taken := bytes.take readChunk
            if taken = [] then (server.hangUp fd, false)
            else
              let read := (server.putClient fd
                { client with
                  inBuf := client.inBuf ++ taken
                  received := client.received ++ taken }).track fd
              if read.overBufferBudget 0 then (read.trouble, false)
              else if taken.length < readChunk then (read, true)
              else drainRead read fd rest
        | .interrupted => drainRead server fd rest
        | .again => (server, true)
        | .failed => (server.hangUp fd, false)

/-! ## The event loop -/

/-- `serve`, without arming the next events: true when input is left over the budget. -/
def serve (database : Database σ) (server : Server σ) (fd : Nat) : Server σ × Bool :=
  match processBuffered database server fd with
  | (dropped, .drop) => (scheduleClose database dropped fd, false)
  | (served, turn) => (served, turn = .more)

end Server

/-- What happens to one connection, with how the calls end that are made for it. -/
inductive ClientEvent
  | readable (reads : List ReadCall) (sends : List Send)
  | writable (sends : List Send)
  /-- `pump_work` comes to the connection. -/
  | pump (sends : List Send)
  /-- The connection has not authenticated in time. -/
  | timeout

inductive NetEvent
  | accept (fd : Nat)
  | client (fd : Nat) (event : ClientEvent)

namespace Server

variable {σ : Type u}

def openClients (server : Server σ) : Nat :=
  (server.clients.toPairs.filter fun entry => !entry.2.closed).length

/-- A connection is accepted; its descriptor is not in use. -/
def accept (server : Server σ) (fd : Nat) : Server σ :=
  if !(server.client fd).closed then server
  else if server.config.maxClients ≤ server.openClients then server.trouble
  else server.putClient fd (Client.connect server.config fd)

def clientEvent (database : Database σ) (server : Server σ) (fd : Nat) :
    ClientEvent → Server σ
  | .readable reads sends =>
      match { server with sends }.drainRead fd reads with
      | (failed, false) => scheduleClose database failed fd
      | (read, true) =>
          match serve database read fd with
          | (served, true) => served
          | (served, false) =>
              if (served.client fd).inputCap ≤ (served.client fd).inBuf.length then
                scheduleClose database served.trouble fd
              else served
  | .writable sends =>
      match { server with sends }.flushOutput fd with
      | (flushed, .dead) => scheduleClose database flushed fd
      | (flushed, _) => flushed
  | .pump sends =>
      if (server.client fd).inBuf = [] then server
      else (serve database { server with sends } fd).1
  | .timeout =>
      if (server.client fd).session.authenticated then server
      else scheduleClose database server.trouble fd

def step (database : Database σ) (server : Server σ) : NetEvent → Server σ
  | .accept fd => server.accept fd
  | .client fd event =>
      if (server.client fd).closed then server else server.clientEvent database fd event

def run (database : Database σ) (server : Server σ) (events : List NetEvent) : Server σ :=
  events.foldl (step database) server

end Server

end SomniumDB.Net
