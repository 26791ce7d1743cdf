import SomniumDB.Abstract.LoopConnections

/-! # The tickets of the event loop

A client that is open has one ticket for each poll that it believes to be armed,
wherever the ticket is: in the backlog, in the submission queue or in the ring.
What serves one client leaves the polls of the others alone, except that it arms
them where it has queued output for them. -/

namespace SomniumDB.Net

open Bytes

namespace PollState

@[simp] theorem number_setArmed (state : PollState) (forWrite value : Bool) :
    (state.setArmed forWrite value).number = state.number := by
  cases forWrite <;> rfl

@[simp] theorem connected_setArmed (state : PollState) (forWrite value : Bool) :
    (state.setArmed forWrite value).connected = state.connected := by
  cases forWrite <;> rfl

theorem armed_setArmed (state : PollState) (forWrite other value : Bool) :
    (state.setArmed forWrite value).armed other =
      if other = forWrite then value else state.armed other := by
  cases forWrite <;> cases other <;> rfl

theorem setArmed_of_armed {state : PollState} {forWrite : Bool}
    (armed : state.armed forWrite = true) : state.setArmed forWrite true = state := by
  cases forWrite with
  | false =>
      change { state with readArmed := true } = state
      rw [← show state.readArmed = true from armed]
  | true =>
      change { state with writeArmed := true } = state
      rw [← show state.writeArmed = true from armed]

end PollState

namespace EventLoop

variable {σ : Type u} {loop after : EventLoop σ} {fd : Nat}

/-- The tickets there are, wherever they are. -/
def tickets (loop : EventLoop σ) : List PollTicket :=
  loop.armBacklog ++ loop.queued ++ loop.flying

/-- The ticket of a poll of the client that has a descriptor now. -/
def ticket (loop : EventLoop σ) (fd : Nat) (forWrite : Bool) : PollTicket :=
  { client := (loop.pollState fd).number, fd, forWrite }

structure Ticketed (loop : EventLoop σ) : Prop where
  issued : ∀ ticket ∈ loop.tickets, ticket.client < loop.created
  numbered : ∀ fd, (loop.server.client fd).closed = false →
    (loop.pollState fd).number < loop.created
  counted : ∀ fd, (loop.server.client fd).closed = false → ∀ forWrite,
    loop.tickets.count (loop.ticket fd forWrite) =
      if (loop.pollState fd).armed forWrite then 1 else 0

/-- An open client is polled for what it waits for. -/
def Polls (loop : EventLoop σ) (fd : Nat) : Prop :=
  (loop.server.client fd).closed = false →
    (loop.pollState fd).armed false = true ∧
      (0 < (loop.server.client fd).pendingOut → (loop.pollState fd).armed true = true)

/-- No request waits in the input of a client, unless the loop has been woken to
come to it. -/
def Fed (loop : EventLoop σ) (fd : Nat) : Prop :=
  (loop.server.client fd).closed = false →
    Resp.parseRequest (loop.server.client fd).inBuf 0 = .needMore ∨ 0 < loop.eventfd ∨
      0 < loop.eventfdDone

/-- What a step that serves one client does to the loop and to the others. -/
structure Spares (fd : Nat) (loop after : EventLoop σ) : Prop where
  frame : after = { loop with
    server := after.server
    pollStates := after.pollStates
    armBacklog := after.armBacklog }
  ticketed : loop.Ticketed → after.Ticketed
  closed : ∀ other, (loop.server.client other).closed = true →
    (after.server.client other).closed = true
  polls : ∀ other, other ≠ fd → loop.Polls other → after.Polls other
  input : ∀ other, other ≠ fd →
    (after.server.client other).inBuf = (loop.server.client other).inBuf
  known : ∀ other, (loop.server.client other).session.authenticated = true →
    (after.server.client other).session.authenticated = true
  connected : ∀ other, (after.pollState other).connected = (loop.pollState other).connected

theorem Spares.refl (fd : Nat) (loop : EventLoop σ) : Spares fd loop loop :=
  ⟨rfl, id, fun _ => id, fun _ _ => id, fun _ _ => rfl, fun _ => id, fun _ => rfl⟩

theorem Spares.trans {third : EventLoop σ} (left : Spares fd loop after)
    (right : Spares fd after third) : Spares fd loop third where
  frame := by
    have same := right.frame
    rw [left.frame] at same
    exact same
  ticketed := right.ticketed ∘ left.ticketed
  closed other before := right.closed other (left.closed other before)
  polls other different before := right.polls other different (left.polls other different before)
  input other different := (right.input other different).trans (left.input other different)
  known other before := right.known other (left.known other before)
  connected other := (right.connected other).trans (left.connected other)

/-- A step that leaves the served client as well off is a step for any client. -/
theorem Spares.any (spares : Spares fd loop after) (polls : loop.Polls fd → after.Polls fd)
    (input : (after.server.client fd).inBuf = (loop.server.client fd).inBuf) (other : Nat) :
    Spares other loop after where
  frame := spares.frame
  ticketed := spares.ticketed
  closed := spares.closed
  polls third _ := by
    by_cases same : third = fd
    · rw [same]
      exact polls
    · exact spares.polls third same
  input third _ := by
    by_cases same : third = fd
    · rw [same]
      exact input
    · exact spares.input third same
  known := spares.known
  connected := spares.connected

/-- Only the client itself has changed, and it has not been opened. -/
theorem spares_server {server : Server σ}
    (others : ∀ other, other ≠ fd → server.client other = loop.server.client other)
    (closed : (loop.server.client fd).closed = true → (server.client fd).closed = true)
    (known : (loop.server.client fd).session.authenticated = true →
      (server.client fd).session.authenticated = true) :
    Spares fd loop { loop with server } := by
  have shut : ∀ other, (loop.server.client other).closed = true →
      (server.client other).closed = true := by
    intro other before
    by_cases same : other = fd
    · rw [same] at before ⊢
      exact closed before
    · rw [others other same]
      exact before
  have wasOpen : ∀ other, (server.client other).closed = false →
      (loop.server.client other).closed = false := by
    intro other isOpen
    cases before : (loop.server.client other).closed with
    | false => rfl
    | true =>
        rw [shut other before] at isOpen
        cases isOpen
  constructor
  · rfl
  · intro ticketed
    constructor
    · exact ticketed.issued
    · exact fun other isOpen => ticketed.numbered other (wasOpen other isOpen)
    · exact fun other isOpen => ticketed.counted other (wasOpen other isOpen)
  · exact shut
  · intro other different polls
    simp only [Polls, others other different]
    exact polls
  · exact fun other different => congrArg Client.inBuf (others other different)
  · intro other before
    by_cases same : other = fd
    · rw [same] at before ⊢
      exact known before
    · rw [others other same]
      exact before
  · exact fun _ => rfl

theorem spares_emits {server : Server σ} {added : Bytes}
    (emits : Server.Emits fd added loop.server server) : Spares fd loop { loop with server } :=
  spares_server emits.others emits.closed fun before => by
    rw [emits.session]
    exact before

/-! ## Arming -/

theorem pollState_insert (loop : EventLoop σ) (fd other : Nat) (state : PollState)
    (backlog : List PollTicket) :
    ({ loop with
      pollStates := loop.pollStates.insert fd state
      armBacklog := backlog } : EventLoop σ).pollState other =
      if other = fd then state else loop.pollState other := by
  simp only [pollState, FiniteMap.lookup_insert_if]
  by_cases same : other = fd
  · simp only [if_pos same]
    rfl
  · simp only [if_neg same]

/-- `arm_client` arms the poll of an open client, and changes no other. -/
theorem pollState_armClient (loop : EventLoop σ) (fd other : Nat) (forWrite : Bool) :
    (loop.armClient fd forWrite).pollState other =
      if other = fd ∧ (loop.server.client fd).closed = false then
        (loop.pollState fd).setArmed forWrite true
      else loop.pollState other := by
  simp only [armClient]
  cases (loop.server.client fd).closed with
  | true => simp
  | false =>
      simp only [Bool.false_or]
      cases armed : (loop.pollState fd).armed forWrite with
      | true =>
          by_cases same : other = fd
          · simp [same, PollState.setArmed_of_armed armed]
          · simp [same]
      | false =>
          simp only [Bool.false_eq_true, if_false, and_true]
          exact pollState_insert loop fd other _ _

theorem ticket_armClient (loop : EventLoop σ) (fd other : Nat) (forWrite write : Bool) :
    (loop.armClient fd forWrite).ticket other write = loop.ticket other write := by
  simp only [ticket, pollState_armClient]
  by_cases here : other = fd ∧ (loop.server.client fd).closed = false
  · rw [if_pos here]
    rw [here.1, PollState.number_setArmed]
  · rw [if_neg here]

theorem armed_armClient (loop : EventLoop σ) (fd : Nat) (forWrite : Bool)
    (isOpen : (loop.server.client fd).closed = false) :
    ((loop.armClient fd forWrite).pollState fd).armed forWrite = true := by
  rw [pollState_armClient, if_pos ⟨rfl, isOpen⟩, PollState.armed_setArmed, if_pos rfl]

/-- What is armed stays armed. -/
theorem armed_of_armed (loop : EventLoop σ) (fd other : Nat) (forWrite write : Bool)
    (armed : (loop.pollState other).armed write = true) :
    ((loop.armClient fd forWrite).pollState other).armed write = true := by
  rw [pollState_armClient]
  by_cases here : other = fd ∧ (loop.server.client fd).closed = false
  · rw [if_pos here]
    rw [here.1] at armed
    rw [PollState.armed_setArmed]
    by_cases same : write = forWrite
    · rw [if_pos same]
    · rw [if_neg same]
      exact armed
  · rw [if_neg here]
    exact armed

theorem ticket_eq_iff (loop : EventLoop σ) (fd other : Nat) (forWrite write : Bool) :
    loop.ticket fd forWrite = loop.ticket other write ↔ fd = other ∧ forWrite = write := by
  constructor
  · intro same
    exact ⟨congrArg PollTicket.fd same, congrArg PollTicket.forWrite same⟩
  · intro same
    rw [same.1, same.2]

/-- Arming adds the ticket where the poll was not armed. -/
theorem tickets_armClient (loop : EventLoop σ) (fd : Nat) (forWrite : Bool) :
    (loop.armClient fd forWrite).tickets =
      if (loop.server.client fd).closed || (loop.pollState fd).armed forWrite then loop.tickets
      else loop.armBacklog ++ [loop.ticket fd forWrite] ++ loop.queued ++ loop.flying := by
  simp only [armClient]
  by_cases same : ((loop.server.client fd).closed || (loop.pollState fd).armed forWrite) = true
  · simp only [if_pos same]
  · simp only [if_neg same]
    rfl

theorem created_armClient (loop : EventLoop σ) (fd : Nat) (forWrite : Bool) :
    (loop.armClient fd forWrite).created = loop.created := by
  simp only [armClient]
  by_cases same : ((loop.server.client fd).closed || (loop.pollState fd).armed forWrite) = true
  · rw [if_pos same]
  · rw [if_neg same]

theorem Ticketed.armClient (ticketed : loop.Ticketed) (fd : Nat) (forWrite : Bool) :
    (loop.armClient fd forWrite).Ticketed := by
  cases unarmed : (loop.server.client fd).closed || (loop.pollState fd).armed forWrite with
  | true =>
      have same : loop.armClient fd forWrite = loop := by
        simp [EventLoop.armClient, unarmed]
      rw [same]
      exact ticketed
  | false =>
      have tickets := tickets_armClient loop fd forWrite
      simp only [unarmed, Bool.false_eq_true, if_false] at tickets
      simp only [Bool.or_eq_false_iff] at unarmed
      constructor
      · intro ticket member
        rw [created_armClient]
        have before := ticketed.issued ticket
        simp only [tickets, List.mem_append, List.mem_singleton] at member
        simp only [EventLoop.tickets, List.mem_append] at before
        by_cases new : ticket = loop.ticket fd forWrite
        · rw [new]
          exact ticketed.numbered fd unarmed.1
        · exact before (by tauto)
      · intro other isOpen
        rw [server_armClient] at isOpen
        rw [created_armClient]
        have number := congrArg PollTicket.client (ticket_armClient loop fd other forWrite false)
        simp only [EventLoop.ticket] at number
        rw [number]
        exact ticketed.numbered other isOpen
      · intro other isOpen write
        rw [server_armClient] at isOpen
        have before := ticketed.counted other isOpen write
        simp only [EventLoop.tickets, List.count_append] at before
        simp only [tickets, ticket_armClient, List.count_append, List.count_singleton,
          beq_iff_eq, ticket_eq_iff, pollState_armClient]
        by_cases here : other = fd
        · by_cases same : write = forWrite
          · rw [here, same] at before
            simp only [unarmed.2, Bool.false_eq_true, if_false] at before
            simp only [here, same, unarmed.1, and_self, if_true, PollState.armed_setArmed]
            omega
          · have different : ¬ (fd = other ∧ forWrite = write) := fun both => same both.2.symm
            rw [if_neg different]
            simp only [here, unarmed.1, and_self, if_true, PollState.armed_setArmed, same,
              if_false]
            rw [here] at before
            omega
        · have different : ¬ (fd = other ∧ forWrite = write) := fun both => here both.1.symm
          rw [if_neg different]
          simp only [here, false_and, if_false]
          omega

theorem spares_armClient (other : Nat) (loop : EventLoop σ) (fd : Nat) (forWrite : Bool) :
    Spares other loop (loop.armClient fd forWrite) := by
  constructor
  · simp only [EventLoop.armClient]
    by_cases same : ((loop.server.client fd).closed || (loop.pollState fd).armed forWrite) = true
    · rw [if_pos same]
    · rw [if_neg same]
  · exact fun ticketed => ticketed.armClient fd forWrite
  · intro other
    rw [server_armClient]
    exact id
  · intro other _ polls
    simp only [Polls, server_armClient]
    intro isOpen
    rcases polls isOpen with ⟨reads, writes⟩
    exact ⟨armed_of_armed loop fd other forWrite false reads,
      fun pending => armed_of_armed loop fd other forWrite true (writes pending)⟩
  · intro other _
    rw [server_armClient]
  · intro other
    rw [server_armClient]
    exact id
  · intro other
    rw [pollState_armClient]
    by_cases here : other = fd ∧ (loop.server.client fd).closed = false
    · rw [if_pos here]
      rw [here.1, PollState.connected_setArmed]
    · rw [if_neg here]

/-! ## Serving a client -/

variable {database : Database σ}

theorem polls_of_closed (closed : (loop.server.client fd).closed = true) : loop.Polls fd := by
  intro isOpen
  rw [closed] at isOpen
  cases isOpen

theorem fed_of_closed (closed : (loop.server.client fd).closed = true) : loop.Fed fd := by
  intro isOpen
  rw [closed] at isOpen
  cases isOpen

/-- All output has been sent. -/
theorem pendingOut_of_complete {server flushed : Server σ}
    (complete : server.flushOutput fd = (flushed, .complete)) :
    (flushed.client fd).pendingOut = 0 := by
  simp only [Server.flushOutput] at complete
  rcases looped : (server.client fd).flushLoop server.sends with ⟨client, result, sends⟩
  rw [looped] at complete
  cases result with
  | complete =>
      simp only [Prod.mk.injEq, and_true] at complete
      rw [← complete, Server.client_track_self]
      rfl
  | pending => cases complete
  | dead => cases complete

theorem input_scheduleClose (database : Database σ) (server : Server σ) (fd : Nat) :
    ((Server.scheduleClose database server fd).client fd).inBuf = (server.client fd).inBuf := by
  simp only [Server.scheduleClose]
  by_cases gone : (server.client fd).closed = true
  · rw [if_pos gone]
  · rw [if_neg gone]
    have here := Server.client_track_self server fd { server.client fd with closed := true }
    have input := congrArg Client.inBuf here
    exact input

theorem others_scheduleClose (database : Database σ) (server : Server σ) {fd other : Nat}
    (different : other ≠ fd) :
    (Server.scheduleClose database server fd).client other = server.client other := by
  simp only [Server.scheduleClose]
  by_cases closed : (server.client fd).closed = true
  · rw [if_pos closed]
  · rw [if_neg closed]
    exact Server.client_track_other server _ different

/-- Closing a client concerns no other. -/
theorem spares_scheduleClose (database : Database σ) (other : Nat) (loop : EventLoop σ)
    (fd : Nat) : Spares other loop (scheduleClose database loop fd) := by
  have closed := Server.closed_scheduleClose database loop.server fd
  have spares : Spares fd loop (scheduleClose database loop fd) :=
    spares_server (fun _ => others_scheduleClose database loop.server) (fun _ => closed)
      fun before => by
        rw [((Server.quiet_scheduleClose database loop.server fd).alike fd).session]
        exact before
  exact spares.any (fun _ => polls_of_closed closed)
    (input_scheduleClose database loop.server fd) other

/-- Output that is sent, or else polled for. -/
theorem spares_sent {flushed : Server σ} {added : Bytes}
    (emits : Server.Emits fd added loop.server flushed) (other : Nat) :
    (flushed.client fd).pendingOut = 0 → Spares other loop { loop with server := flushed } := by
  intro nothing
  apply (spares_emits emits).any
  · intro polls isOpen
    have reads : (loop.pollState fd).armed false = true := by
      cases before : (loop.server.client fd).closed with
      | false => exact (polls before).1
      | true =>
          have closed := emits.closed before
          rw [show (flushed.client fd).closed = false from isOpen] at closed
          cases closed
    refine ⟨reads, ?_⟩
    intro pending
    rw [show (({ loop with server := flushed } : EventLoop σ).server.client fd).pendingOut = 0
      from nothing] at pending
    exact absurd pending (Nat.lt_irrefl 0)
  · exact emits.inBuf

theorem spares_pending {flushed : Server σ} {added : Bytes}
    (emits : Server.Emits fd added loop.server flushed) (other : Nat) :
    Spares other loop (({ loop with server := flushed } : EventLoop σ).armClient fd true) := by
  apply ((spares_emits emits).trans (spares_armClient fd _ fd true)).any
  · intro polls isOpen
    rw [server_armClient] at isOpen
    have reads : (loop.pollState fd).armed false = true := by
      cases before : (loop.server.client fd).closed with
      | false => exact (polls before).1
      | true =>
          have closed := emits.closed before
          rw [show (flushed.client fd).closed = false from isOpen] at closed
          cases closed
    exact ⟨armed_of_armed _ fd fd true false reads, fun _ => armed_armClient _ fd true isOpen⟩
  · rw [server_armClient]
    exact emits.inBuf

theorem spares_deliverPubsub (database : Database σ) (other : Nat) (loop : EventLoop σ)
    (message : Nat × Bytes) : Spares other loop (deliverPubsub database loop message) := by
  simp only [deliverPubsub]
  by_cases gone : (loop.server.client message.1).closed = true
  · rw [if_pos gone]
    exact .refl other loop
  · rw [if_neg gone]
    generalize (if (loop.server.client message.1).session.resp3 = true
      then Server.asPush message.2 else message.2) = text
    have queues := Server.emits_enqueueOutput loop.server message.1 text
    rcases enqueued : loop.server.enqueueOutput message.1 text with ⟨queued, accepted⟩
    rw [enqueued] at queues
    cases accepted with
    | false =>
        rcases queues with ⟨wrong, _⟩ | ⟨_, emits, reason⟩
        · cases wrong
        · have closed := Server.closed_scheduleClose database queued message.1
          have closes := emits.trans (Server.emits_scheduleClose database queued message.1 []
            (reason.imp emits.closed id)).1
          exact (spares_emits closes).any (fun _ => polls_of_closed closed) closes.inBuf other
    | true =>
        rcases queues with ⟨_, emits, _⟩ | ⟨wrong, _⟩
        · have flushes := emits.trans (Server.emits_flushOutput queued message.1)
          dsimp only
          rcases flushing : queued.flushOutput message.1 with ⟨flushed, result⟩
          rw [flushing] at flushes
          cases result with
          | complete => exact spares_sent flushes other (pendingOut_of_complete flushing)
          | pending => exact spares_pending flushes other
          | dead =>
              have excused := Server.excused_flushOutput queued message.1
              rw [flushing] at excused
              have closed := Server.closed_scheduleClose database flushed message.1
              have closes := flushes.trans (Server.emits_scheduleClose database flushed message.1
                [] (.inr (excused rfl))).1
              exact (spares_emits closes).any (fun _ => polls_of_closed closed) closes.inBuf other
        · cases wrong

theorem spares_deliveries (database : Database σ) (other : Nat) (loop : EventLoop σ)
    (messages : List (Nat × Bytes)) :
    Spares other loop (messages.foldl (deliverPubsub database) loop) := by
  induction messages generalizing loop with
  | nil => exact .refl other loop
  | cons message rest induction =>
      exact (spares_deliverPubsub database other loop message).trans (induction _)

/-! An authenticated connection stays so. -/

theorem authenticate_keeps {session : Session} (known : session.authenticated = true)
    (user pass password : Bytes) :
    (authenticate session user pass password).1.authenticated = true := by
  simp only [authenticate]
  by_cases wrong : (!credentialsOk user pass password) = true
  · rw [if_pos wrong]
    exact known
  · rw [if_neg wrong]

theorem auth_keeps {session : Session} (known : session.authenticated = true)
    (args : List Bytes) (password : Bytes) :
    (auth session args password).1.authenticated = true := by
  simp only [auth]
  by_cases few : args.length ≠ 2 ∧ args.length ≠ 3
  · rw [if_pos few]
    exact known
  · rw [if_neg few]
    by_cases free : password = []
    · rw [if_pos free]
      exact known
    · rw [if_neg free]
      exact authenticate_keeps known _ _ _

theorem helloOptions_keeps (password : Bytes) {session : Session}
    (known : session.authenticated = true) (options : List Bytes) :
    (helloOptions password session options).1.authenticated = true := by
  fun_induction helloOptions password session options with
  | case1 => exact known
  | case2 => exact known
  | case3 => exact known
  | case4 => exact known
  | case5 _ _ _ _ _ _ _ induction => exact induction known
  | case6 session _ first second _ _ _ changed reply refused _ =>
      have kept := authenticate_keeps known first second password
      rw [refused] at kept
      exact kept
  | case7 session _ first second _ _ _ changed reply accepted _ induction =>
      have kept := authenticate_keeps known first second password
      rw [accepted] at kept
      exact induction kept
  | case8 _ _ _ _ _ _ _ induction => exact induction known
  | case9 => exact known

theorem hello_keeps {session : Session} (known : session.authenticated = true) (fd : Nat)
    (args : List Bytes) (password : Bytes) :
    (hello session fd args password).1.authenticated = true := by
  have ends : ∀ changed : Session, changed.authenticated = true → ∀ protocol,
      (helloDone changed fd protocol).1.authenticated = true := by
    intro changed kept protocol
    simp [helloDone, kept]
  simp only [hello]
  match args with
  | _ :: version :: options =>
      dsimp only
      cases fromCharsInt version with
      | none => exact known
      | some protocol =>
          dsimp only
          by_cases wrong : protocol ≠ 2 ∧ protocol ≠ 3
          · rw [if_pos wrong]
            exact known
          · rw [if_neg wrong]
            have kept := helloOptions_keeps password known options
            rcases optioned : helloOptions password session options with ⟨changed, reply⟩
            rw [optioned] at kept
            cases reply with
            | none => exact ends changed kept protocol
            | some reply => exact kept
  | [] | [_] => exact ends session known _

theorem answer_keeps (config : NetConfig) (database : Database σ) (fd : Nat) (session : Session)
    (known : session.authenticated = true) (db : σ) (args : List Bytes) :
    (Server.answer config database fd session db args).1.authenticated = true := by
  simp only [Server.answer]
  by_cases isAuth : isName (args.headD []) (ascii "AUTH") = true
  · rw [if_pos isAuth]
    exact auth_keeps known args config.password
  · rw [if_neg isAuth]
    by_cases isHello : isName (args.headD []) (ascii "HELLO") = true
    · rw [if_pos isHello]
      exact hello_keeps known fd args config.password
    · rw [if_neg isHello]
      by_cases unknown : (!session.authenticated) = true
      · rw [if_pos unknown]
        exact known
      · rw [if_neg unknown]
        exact known

theorem spares_command (database : Database σ) (loop : EventLoop σ) (fd : Nat)
    (args : List Bytes) : Spares fd loop (command database loop fd args).1 := by
  simp only [command]
  have keeps := fun known => answer_keeps loop.server.config database fd
    (loop.server.client fd).session known loop.server.db args
  rcases answered : Server.answer loop.server.config database fd (loop.server.client fd).session
    loop.server.db args with ⟨session, db, messages, reply⟩
  rw [answered] at keeps
  refine Spares.trans ?_ (spares_deliveries database fd _ messages)
  apply spares_server
  · intro other different
    rw [Server.client_putClient, if_neg different]
    rfl
  · intro closed
    rw [Server.client_putClient_self]
    exact closed
  · intro known
    rw [Server.client_putClient_self]
    exact keeps known

theorem spares_enqueueOutput (loop : EventLoop σ) (fd : Nat) (data : Bytes) :
    Spares fd loop { loop with server := (loop.server.enqueueOutput fd data).1 } := by
  rcases Server.emits_enqueueOutput loop.server fd data with ⟨_, emits, _⟩ | ⟨_, emits, _⟩
  · exact spares_emits emits
  · exact spares_emits emits

theorem spares_eraseInput (loop : EventLoop σ) (fd pos : Nat) :
    Spares fd loop { loop with server := loop.server.eraseInput fd pos } := by
  apply spares_server
  · intro other different
    exact Server.client_track_other loop.server _ different
  · intro closed
    exact (congrArg Client.closed (Server.client_track_self loop.server fd _)).trans closed
  · intro known
    rw [((Server.quiet_eraseInput loop.server fd pos).alike fd).session]
    exact known

theorem spares_flushOutput (loop : EventLoop σ) (fd : Nat) :
    Spares fd loop { loop with server := (loop.server.flushOutput fd).1 } :=
  spares_emits (Server.emits_flushOutput loop.server fd)

theorem spares_frames (fd : Nat) : Hosts.Frames fd (Spares (σ := σ) fd) where
  refl loop := .refl fd loop
  trans := .trans
  enqueue loop data := spares_enqueueOutput loop fd data
  flush loop := spares_flushOutput loop fd
  erase loop pos := spares_eraseInput loop fd pos
  answered loop := by
    apply spares_server
    · intro other different
      exact (Server.client_putClient _ _ _ _).trans (if_neg different)
    · intro closed
      rw [Server.client_putClient_self]
      exact closed
    · intro known
      rw [Server.client_putClient_self]
      exact known

theorem spares_processBuffered (database : Database σ) (loop : EventLoop σ) (fd : Nat) :
    Spares fd loop (processBuffered database loop fd).1 :=
  (spares_frames fd).processBuffered (fun loop args => spares_command database loop fd args) loop

end EventLoop

end SomniumDB.Net
