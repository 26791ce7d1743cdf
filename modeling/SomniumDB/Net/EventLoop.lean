import SomniumDB.Net.Connection

/-! # The event loop (`main.cpp`)

The loop asks the ring for polls and learns later, in any order, which of them
have completed. A poll keeps its client alive, so it may complete when the
client has long been closed and its descriptor belongs to another. What is done
to the connections is that of `Server`; here is what the loop keeps besides. -/

namespace SomniumDB.Net

open Bytes

/-- `URING_ENTRIES`, the length of the submission queue. -/
def uringEntries : Nat := 4096

/-- `AUTH_TIMEOUT`, in milliseconds. -/
def authTimeout : Nat := 10000

def sweepInterval : Nat := 1000

/-- A poll that has been armed. The number tells its client from the others that
have had the descriptor. -/
structure PollTicket where
  client : Nat
  fd : Nat
  forWrite : Bool
  deriving DecidableEq, Repr

/-- What the loop keeps in a `Client`. -/
structure PollState where
  number : Nat
  readArmed : Bool := false
  writeArmed : Bool := false
  connected : Nat := 0
  deriving DecidableEq, Repr

namespace PollState

def armed (state : PollState) (forWrite : Bool) : Bool :=
  if forWrite then state.writeArmed else state.readArmed

def setArmed (state : PollState) (forWrite value : Bool) : PollState :=
  if forWrite then { state with writeArmed := value } else { state with readArmed := value }

end PollState

/-- How an `accept` in the ring fails. -/
inductive AcceptFailure
  | interrupted
  /-- There are no descriptors, or there is no memory. -/
  | shortage
  | other
  deriving DecidableEq, Repr

structure EventLoop (σ : Type u) where
  server : Server σ
  /-- By descriptor, for the newest client that has it. -/
  pollStates : FiniteMap Nat PollState := ∅
  /-- How many clients there have been. -/
  created : Nat := 0
  armBacklog : List PollTicket := []
  /-- The polls in the submission queue. -/
  queued : List PollTicket := []
  /-- The polls in the ring. -/
  flying : List PollTicket := []
  /-- The calls of `accept` in the ring. -/
  accepts : Nat := 0
  /-- The reads of the eventfd in the ring. -/
  eventfdReads : Nat := 0
  /-- The reads of the eventfd that have completed. -/
  eventfdDone : Nat := 0
  /-- The counter of the eventfd. -/
  eventfd : Nat := 0
  acceptPaused : Bool := false
  acceptFailures : Nat := 0
  firstWait : Bool := true
  nextSweep : Nat := 0

namespace EventLoop

variable {σ : Type u}

def pollState (loop : EventLoop σ) (fd : Nat) : PollState :=
  (loop.pollStates.lookup fd).getD { number := loop.created }

/-- The client of a ticket has been closed: another one may have its descriptor. -/
def stale (loop : EventLoop σ) (ticket : PollTicket) : Bool :=
  (loop.server.client ticket.fd).closed || (loop.pollState ticket.fd).number ≠ ticket.client

def openFds (loop : EventLoop σ) : List Nat :=
  (loop.server.clients.toPairs.filter fun entry => !entry.2.closed).map Prod.fst

def scheduleClose (database : Database σ) (loop : EventLoop σ) (fd : Nat) : EventLoop σ :=
  { loop with server := Server.scheduleClose database loop.server fd }

def armClient (loop : EventLoop σ) (fd : Nat) (forWrite : Bool) : EventLoop σ :=
  let state := loop.pollState fd
  if (loop.server.client fd).closed || state.armed forWrite then loop
  else
    { loop with
      pollStates := loop.pollStates.insert fd (state.setArmed forWrite true)
      armBacklog := loop.armBacklog ++ [{ client := state.number, fd, forWrite }] }

def disarm (loop : EventLoop σ) (ticket : PollTicket) : EventLoop σ :=
  { loop with
    pollStates := loop.pollStates.insert ticket.fd
      ((loop.pollState ticket.fd).setArmed ticket.forWrite false) }

/-- `submit_backlog`: tickets of closed clients are dropped, and those that find
no room in the queue are kept. -/
def submitBacklog (loop : EventLoop σ) : EventLoop σ :=
  let wanted := loop.armBacklog.filter fun ticket => !loop.stale ticket
  let room := uringEntries - loop.queued.length
  { loop with
    armBacklog := wanted.drop room
    queued := loop.queued ++ wanted.take room }

/-- `io_uring_submit`. -/
def submit (loop : EventLoop σ) : EventLoop σ :=
  { loop with queued := [], flying := loop.flying ++ loop.queued }

/-- `arm_listener`: without room in the queue the sweep tries again. -/
def armListener (loop : EventLoop σ) : EventLoop σ :=
  if loop.queued.length < uringEntries then { loop.submit with accepts := loop.accepts + 1 }
  else { loop with acceptPaused := true }

/-- `arm_eventfd`: without room in the queue nothing is armed. -/
def armEventfd (loop : EventLoop σ) : EventLoop σ :=
  if loop.queued.length < uringEntries then
    { loop.submit with eventfdReads := loop.eventfdReads + 1 }
  else loop

def queueWork (loop : EventLoop σ) : EventLoop σ :=
  { loop with eventfd := loop.eventfd + 1 }

def deliverPubsub (database : Database σ) (loop : EventLoop σ) (message : Nat × Bytes) :
    EventLoop σ :=
  let client := loop.server.client message.1
  if client.closed then loop
  else
    let text := if client.session.resp3 then Server.asPush message.2 else message.2
    match loop.server.enqueueOutput message.1 text with
    | (refused, false) => scheduleClose database { loop with server := refused } message.1
    | (queued, true) =>
        match queued.flushOutput message.1 with
        | (flushed, .complete) => { loop with server := flushed }
        | (flushed, .pending) => { loop with server := flushed }.armClient message.1 true
        | (flushed, .dead) => scheduleClose database { loop with server := flushed } message.1

def command (database : Database σ) (loop : EventLoop σ) (fd : Nat) (args : List Bytes) :
    EventLoop σ × Bytes :=
  let client := loop.server.client fd
  let (session, db, messages, reply) :=
    Server.answer loop.server.config database fd client.session loop.server.db args
  let answered := { loop.server with db }.putClient fd
    { client with session, dispatched := client.dispatched ++ [args] }
  (messages.foldl (deliverPubsub database) { loop with server := answered }, reply)

instance : Hosts (EventLoop σ) σ where
  server loop := loop.server
  withServer loop server := { loop with server }
  server_withServer _ _ := rfl
  withServer_withServer _ _ _ := rfl

def processBuffered (database : Database σ) (loop : EventLoop σ) (fd : Nat) :
    EventLoop σ × Turn :=
  Hosts.processBuffered (fun loop args => command database loop fd args) loop fd

/-- `serve`: true when input is left over the budget. -/
def serve (database : Database σ) (loop : EventLoop σ) (fd : Nat) : EventLoop σ × Bool :=
  match processBuffered database loop fd with
  | (dropped, .drop) => (scheduleClose database dropped fd, false)
  | (served, turn) =>
      let sending :=
        if 0 < (served.server.client fd).pendingOut then served.armClient fd true else served
      (sending.armClient fd false, turn = .more)

/-- `pump_work` comes to a client. -/
def pumpClient (database : Database σ) (loop : EventLoop σ) (fd : Nat) (sends : List Send) :
    EventLoop σ :=
  if (loop.server.client fd).closed || (loop.server.client fd).inBuf = [] then loop
  else
    match serve database { loop with server := { loop.server with sends } } fd with
    | (served, true) => served.queueWork
    | (served, false) => served

/-- A client in the snapshot of `close_unauthenticated`. -/
def closeLate (database : Database σ) (loop : EventLoop σ) (fd : Nat) : EventLoop σ :=
  if (loop.server.client fd).closed then loop
  else scheduleClose database { loop with server := loop.server.trouble } fd

def late (loop : EventLoop σ) (now fd : Nat) : Bool :=
  !(loop.server.client fd).session.authenticated &&
    (loop.pollState fd).connected + authTimeout < now

/-! ## Events -/

def accepted (loop : EventLoop σ) (fd now : Nat) : EventLoop σ :=
  let taken := { loop with accepts := loop.accepts - 1, server := loop.server.accept fd }
  if loop.server.config.maxClients ≤ loop.server.openClients then taken.armListener
  else
    let registered := { taken with
      pollStates := taken.pollStates.insert fd { number := taken.created, connected := now }
      created := taken.created + 1 }
    (registered.armClient fd false).armListener

def acceptFails (loop : EventLoop σ) : AcceptFailure → EventLoop σ
  | .interrupted => { loop with accepts := loop.accepts - 1 }.armListener
  | .shortage =>
      { loop with
        accepts := loop.accepts - 1
        acceptFailures := loop.acceptFailures + 1
        acceptPaused := true }
  | .other =>
      { loop with
        accepts := loop.accepts - 1
        acceptFailures := loop.acceptFailures + 1 }.armListener

def writable (database : Database σ) (loop : EventLoop σ) (fd : Nat) : EventLoop σ :=
  match loop.server.flushOutput fd with
  | (flushed, .complete) => { loop with server := flushed }
  | (flushed, .pending) => { loop with server := flushed }.armClient fd true
  | (flushed, .dead) => scheduleClose database { loop with server := flushed } fd

/-- There is input for a client. A command that fills the buffer and is not complete
closes it. -/
def readable (database : Database σ) (loop : EventLoop σ) (fd : Nat) (reads : List ReadCall) :
    EventLoop σ :=
  match loop.server.drainRead fd reads with
  | (failed, false) => scheduleClose database { loop with server := failed } fd
  | (read, true) =>
      match serve database { loop with server := read } fd with
      | (served, true) => served.queueWork
      | (served, false) =>
          if (served.server.client fd).inputCap ≤ (served.server.client fd).inBuf.length then
            scheduleClose database { served with server := served.server.trouble } fd
          else served

/-- The poll of a client that is still open has completed. -/
def completed (database : Database σ) (loop : EventLoop σ) (ticket : PollTicket)
    (reads : List ReadCall) (sends : List Send) : EventLoop σ :=
  let ready := { loop.disarm ticket with server := { loop.server with sends } }
  if ticket.forWrite then writable database ready ticket.fd
  else readable database ready ticket.fd reads

def sweep (database : Database σ) (loop : EventLoop σ) (now : Nat) (order : List Nat) :
    EventLoop σ :=
  let kept := { (order.filter (loop.late now)).foldl (closeLate database) loop with
    acceptFailures := 0 }
  let listening := if kept.acceptPaused then { kept with acceptPaused := false }.armListener
    else kept
  { listening with nextSweep := now + sweepInterval }

end EventLoop

/-- What happens to the loop. The order in which it comes to the clients in its
registry is arbitrary. -/
inductive LoopEvent
  /-- The beginning of a cycle. -/
  | cycle
  /-- A cycle whose wait fails, so that nothing has been submitted. -/
  | waitFails
  /-- Nothing has completed in time when the loop waits for the first time. -/
  | startTimeout
  | accepted (fd now : Nat)
  | acceptFails (failure : AcceptFailure)
  /-- The kernel reads the counter of the eventfd. -/
  | eventfdRead
  /-- The loop learns that the eventfd has been read. -/
  | pump (order : List (Nat × List Send))
  /-- The loop learns that a poll has completed. -/
  | poll (ticket : PollTicket) (reads : List ReadCall) (sends : List Send)
  | sweep (now : Nat) (order : List Nat)

namespace EventLoop

variable {σ : Type u}

/-- What can happen to the loop: it looks at completions, and at the time, after
a wait that has submitted what was queued. -/
def Possible (loop : EventLoop σ) : LoopEvent → Prop
  | .cycle | .waitFails => True
  | .startTimeout => loop.firstWait = true
  | .accepted fd _ =>
      loop.queued = [] ∧ 0 < loop.accepts ∧ (loop.server.client fd).closed = true
  | .acceptFails _ => loop.queued = [] ∧ 0 < loop.accepts
  | .eventfdRead => 0 < loop.eventfdReads ∧ 0 < loop.eventfd
  | .pump order =>
      loop.queued = [] ∧ 0 < loop.eventfdDone ∧ (order.map Prod.fst).Perm loop.openFds
  | .poll ticket _ _ => loop.queued = [] ∧ ticket ∈ loop.flying
  | .sweep now order => loop.queued = [] ∧ loop.nextSweep ≤ now ∧ order.Perm loop.openFds

instance (loop : EventLoop σ) : (event : LoopEvent) → Decidable (loop.Possible event)
  | .cycle => inferInstanceAs (Decidable True)
  | .waitFails => inferInstanceAs (Decidable True)
  | .startTimeout => inferInstanceAs (Decidable (loop.firstWait = true))
  | .accepted fd _ =>
      inferInstanceAs (Decidable
        (loop.queued = [] ∧ 0 < loop.accepts ∧ (loop.server.client fd).closed = true))
  | .acceptFails _ => inferInstanceAs (Decidable (loop.queued = [] ∧ 0 < loop.accepts))
  | .eventfdRead => inferInstanceAs (Decidable (0 < loop.eventfdReads ∧ 0 < loop.eventfd))
  | .pump order =>
      inferInstanceAs (Decidable (loop.queued = [] ∧ 0 < loop.eventfdDone ∧
        (order.map Prod.fst).Perm loop.openFds))
  | .poll ticket _ _ =>
      inferInstanceAs (Decidable (loop.queued = [] ∧ ticket ∈ loop.flying))
  | .sweep now order =>
      inferInstanceAs (Decidable
        (loop.queued = [] ∧ loop.nextSweep ≤ now ∧ order.Perm loop.openFds))

def perform (database : Database σ) (loop : EventLoop σ) : LoopEvent → EventLoop σ
  | .cycle => { loop.submitBacklog.submit with firstWait := false }
  | .waitFails => { loop.submitBacklog with firstWait := false }
  | .startTimeout => loop.submitBacklog.submit.armListener.armEventfd
  | .accepted fd now => loop.accepted fd now
  | .acceptFails failure => loop.acceptFails failure
  | .eventfdRead =>
      { loop with
        eventfdReads := loop.eventfdReads - 1
        eventfdDone := loop.eventfdDone + 1
        eventfd := 0 }
  | .pump order =>
      order.foldl (fun loop entry => loop.pumpClient database entry.1 entry.2)
        { loop with eventfdDone := loop.eventfdDone - 1 }.armEventfd
  | .poll ticket reads sends =>
      let taken := { loop with flying := loop.flying.erase ticket }
      if taken.stale ticket then taken else taken.completed database ticket reads sends
  | .sweep now order => loop.sweep database now order

/-- What cannot happen does nothing. -/
def step (database : Database σ) (loop : EventLoop σ) (event : LoopEvent) : EventLoop σ :=
  if loop.Possible event then loop.perform database event else loop

def run (database : Database σ) (loop : EventLoop σ) (events : List LoopEvent) : EventLoop σ :=
  events.foldl (step database) loop

/-- The loop when `main` comes to it. -/
def start (config : NetConfig) (db : σ) (now : Nat) : EventLoop σ :=
  ({ server := { config, db }, nextSweep := now } : EventLoop σ).armListener.armEventfd

end EventLoop

end SomniumDB.Net
