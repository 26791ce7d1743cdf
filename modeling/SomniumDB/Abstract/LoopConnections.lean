import SomniumDB.Net.EventLoop
import SomniumDB.Net.Turns

/-! # The connections under the event loop

What the loop keeps besides the connections has no influence on them: each
function of the loop does to the connections what its counterpart without
tickets does. -/

namespace SomniumDB.Net.EventLoop

open Bytes

variable {σ : Type u} {database : Database σ} {loop : EventLoop σ}

@[simp] theorem server_armClient (loop : EventLoop σ) (fd : Nat) (forWrite : Bool) :
    (loop.armClient fd forWrite).server = loop.server := by
  simp only [armClient]
  by_cases same : ((loop.server.client fd).closed || (loop.pollState fd).armed forWrite) = true
  · rw [if_pos same]
  · rw [if_neg same]

@[simp] theorem server_submitBacklog (loop : EventLoop σ) :
    loop.submitBacklog.server = loop.server := rfl

@[simp] theorem server_submit (loop : EventLoop σ) : loop.submit.server = loop.server := rfl

@[simp] theorem server_armListener (loop : EventLoop σ) :
    loop.armListener.server = loop.server := by
  simp only [armListener]
  by_cases short : loop.queued.length < uringEntries
  · rw [if_pos short]
    rfl
  · rw [if_neg short]

@[simp] theorem server_armEventfd (loop : EventLoop σ) :
    loop.armEventfd.server = loop.server := by
  simp only [armEventfd]
  by_cases short : loop.queued.length < uringEntries
  · rw [if_pos short]
    rfl
  · rw [if_neg short]

/-! ## Commands -/

theorem server_deliverPubsub (database : Database σ) (loop : EventLoop σ)
    (message : Nat × Bytes) :
    (deliverPubsub database loop message).server =
      Server.deliverPubsub database loop.server message := by
  simp only [deliverPubsub, Server.deliverPubsub]
  by_cases closed : (loop.server.client message.1).closed = true
  · simp only [if_pos closed]
  · simp only [if_neg closed]
    generalize (if (loop.server.client message.1).session.resp3 = true
      then Server.asPush message.2 else message.2) = text
    rcases loop.server.enqueueOutput message.1 text with ⟨queued, accepted⟩
    cases accepted with
    | false => rfl
    | true =>
        dsimp only
        rcases queued.flushOutput message.1 with ⟨flushed, result⟩
        cases result with
        | complete => rfl
        | pending => exact server_armClient _ _ _
        | dead => rfl

theorem server_deliveries (database : Database σ) (loop : EventLoop σ)
    (messages : List (Nat × Bytes)) :
    (messages.foldl (deliverPubsub database) loop).server =
      messages.foldl (Server.deliverPubsub database) loop.server := by
  induction messages generalizing loop with
  | nil => rfl
  | cons message rest induction =>
      rw [List.foldl_cons, List.foldl_cons, induction, server_deliverPubsub]

theorem server_command (database : Database σ) (loop : EventLoop σ) (fd : Nat)
    (args : List Bytes) :
    Server.command database loop.server fd args =
      ((command database loop fd args).1.server, (command database loop fd args).2) := by
  simp only [command, Server.command, server_deliveries]

/-- The loop shows its connections. -/
theorem shows_server (database : Database σ) (fd : Nat) :
    Hosts.Shows EventLoop.server (fun (loop : EventLoop σ) args => command database loop fd args)
      (fun server args => Server.command database server fd args) where
  server _ := rfl
  withServer _ _ := rfl
  handle loop args := server_command database loop fd args

theorem server_processBuffered (database : Database σ) (loop : EventLoop σ) (fd : Nat) :
    Server.processBuffered database loop.server fd =
      ((processBuffered database loop fd).1.server, (processBuffered database loop fd).2) :=
  (shows_server database fd).processBuffered loop

theorem server_serve (database : Database σ) (loop : EventLoop σ) (fd : Nat) :
    Server.serve database loop.server fd =
      ((serve database loop fd).1.server, (serve database loop fd).2) := by
  simp only [serve, Server.serve, server_processBuffered]
  rcases processBuffered database loop fd with ⟨served, turn⟩
  cases turn with
  | drop => rfl
  | done =>
      dsimp only
      rw [server_armClient]
      by_cases pending : 0 < (served.server.client fd).pendingOut
      · rw [if_pos pending]
        rw [server_armClient]
      · rw [if_neg pending]
  | more =>
      dsimp only
      rw [server_armClient]
      by_cases pending : 0 < (served.server.client fd).pendingOut
      · rw [if_pos pending]
        rw [server_armClient]
      · rw [if_neg pending]

/-! ## Events -/

theorem server_pumpClient (database : Database σ) (loop : EventLoop σ) (fd : Nat)
    (sends : List Send) :
    (loop.pumpClient database fd sends).server =
      Server.step database loop.server (.client fd (.pump sends)) := by
  simp only [pumpClient, Server.step, Server.clientEvent]
  cases (loop.server.client fd).closed with
  | true => rfl
  | false =>
      simp only [Bool.false_or, Bool.false_eq_true, if_false, decide_eq_true_eq]
      by_cases empty : (loop.server.client fd).inBuf = []
      · simp only [if_pos empty]
      · simp only [if_neg empty]
        have same := server_serve database
          { loop with server := { loop.server with sends } } fd
        dsimp only at same
        rw [same]
        rcases serve database { loop with server := { loop.server with sends } } fd with
          ⟨served, more⟩
        cases more <;> rfl

theorem server_writable (database : Database σ) (loop : EventLoop σ) (fd : Nat)
    (sends : List Send) (isOpen : (loop.server.client fd).closed = false) :
    (writable database { loop with server := { loop.server with sends } } fd).server =
      Server.step database loop.server (.client fd (.writable sends)) := by
  simp only [writable, Server.step, isOpen, Bool.false_eq_true, if_false, Server.clientEvent]
  rcases ({ loop.server with sends } : Server σ).flushOutput fd with ⟨flushed, result⟩
  cases result with
  | complete => rfl
  | pending => exact server_armClient _ _ _
  | dead => rfl

theorem server_readable (database : Database σ) (loop : EventLoop σ) (fd : Nat)
    (reads : List ReadCall) (sends : List Send)
    (isOpen : (loop.server.client fd).closed = false) :
    (readable database { loop with server := { loop.server with sends } } fd reads).server =
      Server.step database loop.server (.client fd (.readable reads sends)) := by
  simp only [readable, Server.step, isOpen, Bool.false_eq_true, if_false, Server.clientEvent]
  rcases ({ loop.server with sends } : Server σ).drainRead fd reads with ⟨read, success⟩
  cases success with
  | false => rfl
  | true =>
      have same := server_serve database { loop with server := read } fd
      dsimp only at same ⊢
      rw [same]
      rcases serve database { loop with server := read } fd with ⟨served, more⟩
      cases more with
      | true => rfl
      | false =>
          dsimp only
          by_cases full :
              (served.server.client fd).inputCap ≤ List.length (served.server.client fd).inBuf
          · simp only [if_pos full]
            rfl
          · simp only [if_neg full]

theorem server_completed {ticket : PollTicket} (reads : List ReadCall) (sends : List Send)
    (isOpen : (loop.server.client ticket.fd).closed = false) :
    (loop.completed database ticket reads sends).server =
      Server.step database loop.server (.client ticket.fd
        (if ticket.forWrite then .writable sends else .readable reads sends)) := by
  simp only [completed]
  cases ticket.forWrite with
  | true => exact server_writable database (loop.disarm ticket) ticket.fd sends isOpen
  | false => exact server_readable database (loop.disarm ticket) ticket.fd reads sends isOpen

theorem server_closeLate (database : Database σ) (loop : EventLoop σ) (fd : Nat)
    (unknown : (loop.server.client fd).session.authenticated = false) :
    (loop.closeLate database fd).server =
      Server.step database loop.server (.client fd .timeout) := by
  simp only [closeLate, Server.step, Server.clientEvent, unknown]
  by_cases closed : (loop.server.client fd).closed = true
  · simp only [if_pos closed]
  · simp only [if_neg closed]
    rfl

/-- What an event of the loop does to the connections. -/
def netEvents (loop : EventLoop σ) (event : LoopEvent) : List NetEvent :=
  if loop.Possible event then
    match event with
    | .accepted fd _ => [.accept fd]
    | .pump order => order.map fun entry => .client entry.1 (.pump entry.2)
    | .poll ticket reads sends =>
        if loop.stale ticket then []
        else
          [.client ticket.fd (if ticket.forWrite then .writable sends else .readable reads sends)]
    | .sweep now order => (order.filter (loop.late now)).map fun fd => .client fd .timeout
    | _ => []
  else []

theorem server_pumps (database : Database σ) (loop : EventLoop σ)
    (order : List (Nat × List Send)) :
    (order.foldl (fun loop entry => loop.pumpClient database entry.1 entry.2) loop).server =
      loop.server.run database (order.map fun entry => .client entry.1 (.pump entry.2)) := by
  induction order generalizing loop with
  | nil => rfl
  | cons entry rest induction =>
      rw [List.foldl_cons, induction, server_pumpClient]
      rfl

theorem session_closeLate (database : Database σ) (loop : EventLoop σ) (fd other : Nat) :
    ((loop.closeLate database fd).server.client other).session =
      (loop.server.client other).session := by
  simp only [closeLate]
  by_cases closed : (loop.server.client fd).closed = true
  · rw [if_pos closed]
  · rw [if_neg closed]
    exact ((Server.quiet_scheduleClose database loop.server.trouble fd).alike other).session

theorem server_closings (database : Database σ) (loop : EventLoop σ) (order : List Nat)
    (unknown : ∀ fd ∈ order, (loop.server.client fd).session.authenticated = false) :
    (order.foldl (closeLate database) loop).server =
      loop.server.run database (order.map fun fd => .client fd .timeout) := by
  induction order generalizing loop with
  | nil => rfl
  | cons fd rest induction =>
      have first := server_closeLate database loop fd (unknown fd List.mem_cons_self)
      rw [List.foldl_cons, induction, first]
      · rfl
      · intro other member
        rw [session_closeLate]
        exact unknown other (List.mem_cons_of_mem _ member)

theorem server_accepted (loop : EventLoop σ) (fd now : Nat) :
    (loop.accepted fd now).server = loop.server.accept fd := by
  simp only [accepted]
  by_cases full : loop.server.config.maxClients ≤ loop.server.openClients
  · rw [if_pos full]
    simp
  · rw [if_neg full]
    simp

theorem server_acceptFails (loop : EventLoop σ) (failure : AcceptFailure) :
    (loop.acceptFails failure).server = loop.server := by
  cases failure <;> simp [acceptFails]

/-- One step of the loop, seen from the connections. -/
theorem server_step (database : Database σ) (loop : EventLoop σ) (event : LoopEvent) :
    (loop.step database event).server =
      loop.server.run database (loop.netEvents event) := by
  simp only [step, netEvents]
  by_cases possible : loop.Possible event
  · simp only [if_pos possible]
    cases event with
    | cycle => rfl
    | waitFails => rfl
    | startTimeout => simp [perform, Server.run]
    | accepted fd now => exact server_accepted loop fd now
    | acceptFails failure => exact server_acceptFails loop failure
    | eventfdRead => rfl
    | pump order =>
        simp only [perform]
        rw [server_pumps, server_armEventfd]
    | poll ticket reads sends =>
        simp only [perform]
        have same : ({ loop with flying := loop.flying.erase ticket } : EventLoop σ).stale
            ticket = loop.stale ticket := rfl
        rw [same]
        cases stale : loop.stale ticket with
        | true => rfl
        | false =>
            simp only [EventLoop.stale, Bool.or_eq_false_iff] at stale
            exact server_completed reads sends stale.1
    | sweep now order =>
        simp only [perform, sweep]
        have closed := server_closings database loop (order.filter (loop.late now)) (by
          intro fd member
          have isLate := List.of_mem_filter member
          simp only [late, Bool.and_eq_true, Bool.not_eq_true'] at isLate
          exact isLate.1)
        by_cases paused :
            ((order.filter (loop.late now)).foldl (closeLate database) loop).acceptPaused = true
        · simp only [if_pos paused]
          rw [server_armListener]
          exact closed
        · simp only [if_neg paused]
          exact closed
  · simp only [if_neg possible]
    rfl

end SomniumDB.Net.EventLoop
