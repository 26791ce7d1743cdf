import SomniumDB.Abstract.PollTickets
import SomniumDB.Properties.Pipelining

/-! # No connection is forgotten

An open client always has its poll for input, a poll for output if it has output
to be sent, and a request that waits in its input has woken the loop. -/

namespace SomniumDB.Net

open Bytes

namespace Server

variable {σ : Type u} {database : Database σ} {fd : Nat}

/-- The loop of `process_buffered` stops for more input only where there is no
request. -/
theorem waits_processLoop (budget pos : Nat) (server : Server σ)
    (waiting : (processLoop database fd budget pos server).2.2 = .waiting) :
    Resp.parseRequest ((processLoop database fd budget pos server).1.client fd).inBuf
      (processLoop database fd budget pos server).2.1 = .needMore := by
  induction budget generalizing pos server with
  | zero => cases waiting
  | succ budget induction =>
      revert waiting
      rw [processLoop_succ]
      cases found : Resp.parseRequest (server.client fd).inBuf pos with
      | needMore => exact fun _ => found
      | malformed => exact fun wrong => by cases wrong
      | complete stop args =>
          dsimp only
          cases isQuit args with
          | true => exact fun wrong => by cases wrong
          | false =>
              simp only [Bool.false_eq_true, if_false]
              rcases command database server fd args with ⟨answered, reply⟩
              dsimp only
              by_cases silent : reply = []
              · rw [if_pos silent]
                exact induction stop answered
              · rw [if_neg silent]
                rcases answered.enqueueOutput fd reply with ⟨queued, accepted⟩
                cases accepted with
                | false => exact fun wrong => by cases wrong
                | true => exact induction stop queued

theorem input_eraseInput (server : Server σ) (fd pos : Nat) :
    ((server.eraseInput fd pos).client fd).inBuf = (server.client fd).inBuf.drop pos := by
  rcases client_eraseInput server fd pos with ⟨held, same⟩
  rw [same]

/-- Reading changes only the client that is read, and does not close it. -/
structure Reads (fd : Nat) (server read : Server σ) : Prop where
  others : ∀ other, other ≠ fd → read.client other = server.client other
  closed : (read.client fd).closed = (server.client fd).closed
  session : (read.client fd).session = (server.client fd).session

theorem Reads.refl (fd : Nat) (server : Server σ) : Reads fd server server :=
  ⟨fun _ _ => rfl, rfl, rfl⟩

theorem Reads.trans {first second third : Server σ} (left : Reads fd first second)
    (right : Reads fd second third) : Reads fd first third where
  others other different := (right.others other different).trans (left.others other different)
  closed := right.closed.trans left.closed
  session := right.session.trans left.session

theorem reads_putClient (server : Server σ) {client : Client}
    (closed : client.closed = (server.client fd).closed)
    (session : client.session = (server.client fd).session) :
    Reads fd server (server.putClient fd client) where
  others _ different := (client_putClient server fd _ client).trans (if_neg different)
  closed := (congrArg Client.closed (client_putClient_self server fd client)).trans closed
  session := (congrArg Client.session (client_putClient_self server fd client)).trans session

theorem reads_track (server : Server σ) {client : Client}
    (closed : client.closed = (server.client fd).closed)
    (session : client.session = (server.client fd).session) :
    Reads fd server ((server.putClient fd client).track fd) where
  others _ different := client_track_other server client different
  closed := (congrArg Client.closed (client_track_self server fd client)).trans closed
  session := (congrArg Client.session (client_track_self server fd client)).trans session

theorem reads_drainRead (server : Server σ) (fd : Nat) (reads : List ReadCall) :
    Reads fd server (server.drainRead fd reads).1 :=
  frames_drainRead (.refl fd) .trans (fun server => reads_putClient server rfl rfl)
    (fun _ => ⟨fun _ _ => rfl, rfl, rfl⟩) (fun server _ => reads_track server rfl rfl) server reads

/-- A turn that has come to its end leaves no request. -/
theorem waits_processBuffered (server : Server σ)
    (done : (processBuffered database server fd).2 = .done) :
    Resp.parseRequest ((processBuffered database server fd).1.client fd).inBuf 0 =
      .needMore := by
  revert done
  have waits := @waits_processLoop σ database fd maxCommandsPerTurn 0 server
  rw [processBuffered_eq]
  rcases looped : processLoop database fd maxCommandsPerTurn 0 server with
    ⟨processed, pos, ending⟩
  rw [looped] at waits
  cases ending with
  | overflow => exact fun wrong => by cases wrong
  | quit =>
      intro done
      rw [finish_drops] at done
      cases done
  | malformed =>
      intro done
      rw [finish_drops] at done
      cases done
  | budget =>
      dsimp only
      rcases (processed.eraseInput fd pos).flushOutput fd with ⟨flushed, result⟩
      have empty : (if LoopEnd.budget = .budget ∧ (flushed.client fd).inBuf ≠ []
          then Turn.more else .done) = .done →
          Resp.parseRequest (flushed.client fd).inBuf 0 = .needMore := by
        intro done
        by_cases left : (flushed.client fd).inBuf = []
        · rw [left]
          rfl
        · rw [if_pos ⟨rfl, left⟩] at done
          cases done
      cases result with
      | complete => exact empty
      | pending => exact empty
      | dead => exact fun wrong => by cases wrong
  | waiting =>
      have rest := parseRequest_drop (waits rfl) (by simp)
      rw [← input_eraseInput] at rest
      have flushes := emits_flushOutput (processed.eraseInput fd pos) fd
      dsimp only
      rcases flushing : (processed.eraseInput fd pos).flushOutput fd with ⟨flushed, result⟩
      rw [flushing] at flushes
      rw [← flushes.inBuf] at rest
      cases result with
      | complete => exact fun _ => rest
      | pending => exact fun _ => rest
      | dead => exact fun wrong => by cases wrong

end Server

namespace EventLoop

variable {σ : Type u} {database : Database σ} {loop after : EventLoop σ} {fd : Nat}

/-! ## Serving -/

theorem spares_serve (database : Database σ) (loop : EventLoop σ) (fd : Nat) :
    Spares fd loop (serve database loop fd).1 := by
  have processes := spares_processBuffered database loop fd
  simp only [serve]
  rcases processed : processBuffered database loop fd with ⟨served, turn⟩
  rw [processed] at processes
  have arms : Spares fd loop
      ((if 0 < (served.server.client fd).pendingOut then served.armClient fd true
        else served).armClient fd false) := by
    by_cases pending : 0 < (served.server.client fd).pendingOut
    · rw [if_pos pending]
      exact (processes.trans (spares_armClient fd served fd true)).trans
        (spares_armClient fd _ fd false)
    · rw [if_neg pending]
      exact processes.trans (spares_armClient fd served fd false)
  cases turn with
  | drop => exact processes.trans (spares_scheduleClose database fd served fd)
  | done => exact arms
  | more => exact arms

/-- A client that has been served is polled again. -/
theorem polls_serve (database : Database σ) (loop : EventLoop σ) (fd : Nat) :
    (serve database loop fd).1.Polls fd := by
  simp only [serve]
  rcases processBuffered database loop fd with ⟨served, turn⟩
  have arms : ((if 0 < (served.server.client fd).pendingOut then served.armClient fd true
      else served).armClient fd false).Polls fd := by
    intro isOpen
    rw [server_armClient] at isOpen
    constructor
    · exact armed_armClient _ fd false isOpen
    · intro pending
      rw [server_armClient] at pending
      apply armed_of_armed
      by_cases sends : 0 < (served.server.client fd).pendingOut
      · rw [if_pos sends] at isOpen
        rw [if_pos sends]
        rw [server_armClient] at isOpen
        exact armed_armClient served fd true isOpen
      · rw [if_neg sends] at isOpen
        rw [if_neg sends] at pending
        exact absurd pending sends
  cases turn with
  | drop => exact polls_of_closed (Server.closed_scheduleClose database served.server fd)
  | done => exact arms
  | more => exact arms

/-- A client that has been served has no request left, or asks for another turn. -/
theorem waits_serve (database : Database σ) (loop : EventLoop σ) (fd : Nat)
    (enough : (serve database loop fd).2 = false)
    (isOpen : ((serve database loop fd).1.server.client fd).closed = false) :
    Resp.parseRequest ((serve database loop fd).1.server.client fd).inBuf 0 = .needMore := by
  have waits := @Server.waits_processBuffered σ database fd loop.server
  rw [server_processBuffered] at waits
  revert enough isOpen
  simp only [serve]
  rcases processed : processBuffered database loop fd with ⟨served, turn⟩
  rw [processed] at waits
  cases turn with
  | drop =>
      intro _ isOpen
      rw [show ((scheduleClose database served fd).server.client fd).closed = true from
        Server.closed_scheduleClose database served.server fd] at isOpen
      cases isOpen
  | done =>
      intro _ _
      dsimp only
      rw [server_armClient]
      by_cases pending : 0 < (served.server.client fd).pendingOut
      · rw [if_pos pending]
        rw [server_armClient]
        exact waits rfl
      · rw [if_neg pending]
        exact waits rfl
  | more => exact fun wrong => by cases wrong

/-! ## The ring -/

/-- Tickets have moved, or those of closed clients have been dropped. -/
structure Rearranges (loop after : EventLoop σ) : Prop where
  server : after.server = loop.server
  states : after.pollStates = loop.pollStates
  created : after.created = loop.created
  members : ∀ ticket ∈ after.tickets, ticket ∈ loop.tickets
  counts : ∀ ticket, loop.stale ticket = false →
    after.tickets.count ticket = loop.tickets.count ticket

theorem Rearranges.pollState (rearranges : Rearranges loop after) (fd : Nat) :
    after.pollState fd = loop.pollState fd := by
  simp only [EventLoop.pollState, rearranges.states, rearranges.created]

theorem Rearranges.trans {third : EventLoop σ} (left : Rearranges loop after)
    (right : Rearranges after third) : Rearranges loop third where
  server := right.server.trans left.server
  states := right.states.trans left.states
  created := right.created.trans left.created
  members ticket member := left.members ticket (right.members ticket member)
  counts ticket current := by
    rw [right.counts ticket, left.counts ticket current]
    simp only [stale, left.server, left.pollState]
    exact current

theorem stale_ticket (isOpen : (loop.server.client fd).closed = false) (forWrite : Bool) :
    loop.stale (loop.ticket fd forWrite) = false := by
  simp [stale, EventLoop.ticket, isOpen]

theorem Rearranges.ticketed (rearranges : Rearranges loop after) (ticketed : loop.Ticketed) :
    after.Ticketed := by
  constructor
  · intro ticket member
    rw [rearranges.created]
    exact ticketed.issued ticket (rearranges.members ticket member)
  · intro fd isOpen
    rw [rearranges.server] at isOpen
    rw [rearranges.pollState, rearranges.created]
    exact ticketed.numbered fd isOpen
  · intro fd isOpen forWrite
    rw [rearranges.server] at isOpen
    have same : after.ticket fd forWrite = loop.ticket fd forWrite := by
      simp only [EventLoop.ticket, rearranges.pollState]
    rw [same, rearranges.counts _ (stale_ticket isOpen forWrite), rearranges.pollState]
    exact ticketed.counted fd isOpen forWrite

theorem Rearranges.polls (rearranges : Rearranges loop after) (polls : loop.Polls fd) :
    after.Polls fd := by
  simp only [Polls, rearranges.server, rearranges.pollState]
  exact polls

/-- The tickets are where they were. -/
theorem rearranges_same (server : after.server = loop.server)
    (states : after.pollStates = loop.pollStates) (created : after.created = loop.created)
    (same : after.tickets = loop.tickets) : Rearranges loop after where
  server := server
  states := states
  created := created
  members ticket member := by
    rw [← same]
    exact member
  counts ticket _ := by rw [same]

theorem rearranges_submit (loop : EventLoop σ) : Rearranges loop loop.submit := by
  refine ⟨rfl, rfl, rfl, ?_, ?_⟩
  · intro ticket member
    simp only [tickets, submit, List.append_nil, List.mem_append] at member ⊢
    tauto
  · intro ticket _
    simp only [tickets, submit, List.append_nil, List.count_append]
    omega

theorem rearranges_submitBacklog (loop : EventLoop σ) :
    Rearranges loop loop.submitBacklog := by
  refine ⟨rfl, rfl, rfl, ?_, ?_⟩
  · intro ticket member
    simp only [tickets, submitBacklog, List.mem_append] at member ⊢
    have wanted : ticket ∈ loop.armBacklog.filter (fun ticket => !loop.stale ticket) →
        ticket ∈ loop.armBacklog := fun member => List.mem_of_mem_filter member
    rcases member with (kept | queued | moved) | flying
    · exact .inl (.inl (wanted (List.mem_of_mem_drop kept)))
    · exact .inl (.inr queued)
    · exact .inl (.inl (wanted (List.mem_of_mem_take moved)))
    · exact .inr flying
  · intro ticket current
    have kept : (loop.armBacklog.filter fun ticket => !loop.stale ticket).count ticket =
        loop.armBacklog.count ticket := by
      apply List.count_filter
      simp [current]
    have split := congrArg (List.count ticket) (List.take_append_drop
      (uringEntries - loop.queued.length)
      (loop.armBacklog.filter fun ticket => !loop.stale ticket))
    rw [List.count_append, kept] at split
    simp only [tickets, submitBacklog, List.count_append]
    omega

theorem rearranges_armListener (loop : EventLoop σ) : Rearranges loop loop.armListener := by
  simp only [armListener]
  by_cases short : loop.queued.length < uringEntries
  · rw [if_pos short]
    exact (rearranges_submit loop).trans (rearranges_same rfl rfl rfl rfl)
  · rw [if_neg short]
    exact rearranges_same rfl rfl rfl rfl

theorem rearranges_armEventfd (loop : EventLoop σ) : Rearranges loop loop.armEventfd := by
  simp only [armEventfd]
  by_cases short : loop.queued.length < uringEntries
  · rw [if_pos short]
    exact (rearranges_submit loop).trans (rearranges_same rfl rfl rfl rfl)
  · rw [if_neg short]
    exact rearranges_same rfl rfl rfl rfl

/-! ## The invariant -/

/-- The loop accepts connections, or the sweep will see to it. -/
def Listening (loop : EventLoop σ) : Prop :=
  0 < loop.accepts ∨ loop.acceptPaused = true

/-- All is well, but for the clients that are being served. -/
structure Runs (unpolled unfed : Set Nat) (loop : EventLoop σ) : Prop where
  ticketed : loop.Ticketed
  polls : ∀ fd ∉ unpolled, loop.Polls fd
  fed : ∀ fd ∉ unfed, loop.Fed fd
  watching : 0 < loop.eventfdReads ∨ 0 < loop.eventfdDone

theorem Runs.mono {unpolled unfed lessPolled lessFed : Set Nat}
    (runs : loop.Runs unpolled unfed) (polls : unpolled ⊆ lessPolled) (fed : unfed ⊆ lessFed) :
    loop.Runs lessPolled lessFed where
  ticketed := runs.ticketed
  polls fd outside := runs.polls fd fun inside => outside (polls inside)
  fed fd outside := runs.fed fd fun inside => outside (fed inside)
  watching := runs.watching

theorem Runs.spared {unpolled unfed : Set Nat} (runs : loop.Runs unpolled unfed)
    (polled : fd ∈ unpolled) (served : fd ∈ unfed) (spares : Spares fd loop after) :
    after.Runs unpolled unfed where
  ticketed := spares.ticketed runs.ticketed
  polls other outside :=
    spares.polls other (fun same => outside (by rw [same]; exact polled))
      (runs.polls other outside)
  fed other outside := by
    have different : other ≠ fd := fun same => outside (by rw [same]; exact served)
    intro isOpen
    have wasOpen : (loop.server.client other).closed = false := by
      cases before : (loop.server.client other).closed with
      | false => rfl
      | true =>
          rw [spares.closed other before] at isOpen
          cases isOpen
    have fed := runs.fed other outside wasOpen
    rw [spares.input other different, spares.frame]
    exact fed
  watching := by
    rw [spares.frame]
    exact runs.watching

theorem Runs.rearranged {unpolled unfed : Set Nat} (runs : loop.Runs unpolled unfed)
    (rearranges : Rearranges loop after)
    (woken : 0 < loop.eventfd ∨ 0 < loop.eventfdDone → 0 < after.eventfd ∨ 0 < after.eventfdDone)
    (watching : 0 < after.eventfdReads ∨ 0 < after.eventfdDone) :
    after.Runs unpolled unfed where
  ticketed := rearranges.ticketed runs.ticketed
  polls fd outside := rearranges.polls (runs.polls fd outside)
  fed fd outside := by
    have fed := runs.fed fd outside
    simp only [Fed, rearranges.server]
    exact fun isOpen => (fed isOpen).imp id woken
  watching := watching

theorem Runs.complete {unpolled unfed : Set Nat} (runs : loop.Runs (insert fd unpolled)
    (insert fd unfed)) (polls : loop.Polls fd) (fed : loop.Fed fd) :
    loop.Runs unpolled unfed where
  ticketed := runs.ticketed
  polls other outside := by
    by_cases same : other = fd
    · rw [same]
      exact polls
    · exact runs.polls other (by simp [same, outside])
  fed other outside := by
    by_cases same : other = fd
    · rw [same]
      exact fed
    · exact runs.fed other (by simp [same, outside])
  watching := runs.watching

theorem Runs.queueWork {unpolled unfed : Set Nat} (runs : loop.Runs unpolled unfed) :
    loop.queueWork.Runs unpolled unfed :=
  runs.rearranged (rearranges_same rfl rfl rfl rfl)
    (fun _ => .inl (Nat.succ_pos _)) runs.watching

theorem fed_queueWork (loop : EventLoop σ) (fd : Nat) : loop.queueWork.Fed fd :=
  fun _ => .inr (.inl (Nat.succ_pos _))

theorem listening_armListener (loop : EventLoop σ) : loop.armListener.Listening := by
  simp only [armListener]
  by_cases short : loop.queued.length < uringEntries
  · rw [if_pos short]
    exact .inl (Nat.succ_pos _)
  · rw [if_neg short]
    exact .inr rfl

theorem Runs.armListener {unpolled unfed : Set Nat} (runs : loop.Runs unpolled unfed) :
    loop.armListener.Runs unpolled unfed := by
  apply runs.rearranged (rearranges_armListener loop)
  · simp only [EventLoop.armListener]
    by_cases short : loop.queued.length < uringEntries
    · rw [if_pos short]
      exact id
    · rw [if_neg short]
      exact id
  · simp only [EventLoop.armListener]
    by_cases short : loop.queued.length < uringEntries
    · rw [if_pos short]
      exact runs.watching
    · rw [if_neg short]
      exact runs.watching

theorem Spares.listening (spares : Spares fd loop after) (listening : loop.Listening) :
    after.Listening := by
  rw [spares.frame]
  exact listening

/-! ## Events -/

theorem Runs.pumpClient {rest : Set Nat} (runs : loop.Runs ∅ (insert fd rest))
    (sends : List Send) : (loop.pumpClient database fd sends).Runs ∅ rest := by
  have open_runs : loop.Runs (insert fd ∅) (insert fd rest) :=
    runs.mono (Set.empty_subset _) subset_rfl
  simp only [EventLoop.pumpClient]
  cases closed : (loop.server.client fd).closed with
  | true =>
      simp only [Bool.true_or, if_true]
      exact open_runs.complete (runs.polls fd (Set.notMem_empty fd)) (fed_of_closed closed)
  | false =>
      simp only [Bool.false_or, decide_eq_true_eq]
      by_cases empty : (loop.server.client fd).inBuf = []
      · rw [if_pos empty]
        apply open_runs.complete (runs.polls fd (Set.notMem_empty fd))
        intro _
        rw [empty]
        exact .inl rfl
      · rw [if_neg empty]
        have supplies : Spares fd loop { loop with server := { loop.server with sends } } :=
          spares_server (fun _ _ => rfl) id id
        have spares := supplies.trans (spares_serve database _ fd)
        have polls := polls_serve database { loop with server := { loop.server with sends } } fd
        have waits := waits_serve database { loop with server := { loop.server with sends } } fd
        have served := open_runs.spared (Set.mem_insert _ _) (Set.mem_insert _ _) spares
        rcases serving : serve database { loop with server := { loop.server with sends } } fd with
          ⟨next, more⟩
        rw [serving] at polls waits served
        cases more with
        | true => exact served.queueWork.complete polls (fed_queueWork next fd)
        | false => exact served.complete polls fun isOpen => .inl (waits rfl isOpen)

theorem Runs.pumps {order : List (Nat × List Send)} {rest : Set Nat}
    (runs : loop.Runs ∅ ({fd | fd ∈ order.map Prod.fst} ∪ rest)) :
    (order.foldl (fun loop entry => loop.pumpClient database entry.1 entry.2) loop).Runs ∅
      rest := by
  induction order generalizing loop with
  | nil => exact runs.mono subset_rfl (by simp)
  | cons entry order induction =>
      rw [List.foldl_cons]
      apply induction
      apply Runs.pumpClient
      apply runs.mono subset_rfl
      intro fd member
      simp only [List.map_cons, List.mem_cons, Set.mem_union, Set.mem_ofPred_eq,
        Set.mem_insert_iff] at member ⊢
      tauto

theorem listening_pumpClient (listening : loop.Listening) (fd : Nat) (sends : List Send) :
    (loop.pumpClient database fd sends).Listening := by
  simp only [EventLoop.pumpClient]
  by_cases empty :
      ((loop.server.client fd).closed || decide ((loop.server.client fd).inBuf = [])) = true
  · rw [if_pos empty]
    exact listening
  · rw [if_neg empty]
    have supplies : Spares fd loop { loop with server := { loop.server with sends } } :=
      spares_server (fun _ _ => rfl) id id
    have spares := supplies.trans (spares_serve database _ fd)
    have served := spares.listening listening
    rcases serving : serve database { loop with server := { loop.server with sends } } fd with
      ⟨next, more⟩
    rw [serving] at served
    cases more <;> exact served

theorem listening_pumps (listening : loop.Listening) (order : List (Nat × List Send)) :
    (order.foldl (fun loop entry => loop.pumpClient database entry.1 entry.2)
      loop).Listening := by
  induction order generalizing loop with
  | nil => exact listening
  | cons entry order induction => exact induction (listening_pumpClient listening _ _)

/-- The loop has a poll for each client that is open. -/
theorem mem_openFds (loop : EventLoop σ) (fd : Nat) :
    fd ∈ loop.openFds ↔ (loop.server.client fd).closed = false := by
  simp only [openFds, List.mem_map, List.mem_filter, Bool.not_eq_true']
  constructor
  · intro listed
    rcases listed with ⟨entry, ⟨member, isOpen⟩, same⟩
    have found := (loop.server.clients.mem_toPairs entry.1 entry.2).mp member
    rw [← same, Server.client, found]
    exact isOpen
  · intro isOpen
    cases found : loop.server.clients.lookup fd with
    | none =>
        simp [Server.client, found] at isOpen
    | some client =>
        refine ⟨(fd, client), ⟨(loop.server.clients.mem_toPairs fd client).mpr found, ?_⟩, rfl⟩
        simpa [Server.client, found] using isOpen

structure Running (loop : EventLoop σ) : Prop where
  runs : loop.Runs ∅ ∅
  listening : loop.Listening

theorem Running.cycle (running : loop.Running) : (loop.submitBacklog.submit).Running :=
  ⟨running.runs.rearranged
    ((rearranges_submitBacklog loop).trans (rearranges_submit _)) id running.runs.watching,
    running.listening⟩

theorem Running.startTimeout (running : loop.Running) :
    (loop.submitBacklog.submit.armListener.armEventfd).Running := by
  have listens := running.cycle.runs.armListener
  have listening := listening_armListener loop.submitBacklog.submit
  generalize loop.submitBacklog.submit.armListener = armed at listens listening
  have runs : armed.armEventfd.Runs ∅ ∅ := by
    apply listens.rearranged (rearranges_armEventfd armed)
    · simp only [armEventfd]
      by_cases few : armed.queued.length < uringEntries
      · rw [if_pos few]
        exact id
      · rw [if_neg few]
        exact id
    · simp only [armEventfd]
      by_cases short : armed.queued.length < uringEntries
      · rw [if_pos short]
        exact .inl (Nat.succ_pos _)
      · rw [if_neg short]
        exact listens.watching
  refine ⟨runs, ?_⟩
  simp only [Listening, armEventfd]
  by_cases few : armed.queued.length < uringEntries
  · rw [if_pos few]
    exact listening
  · rw [if_neg few]
    exact listening

theorem Running.pump (running : loop.Running) {order : List (Nat × List Send)}
    (possible : loop.Possible (.pump order)) :
    (loop.perform database (.pump order)).Running := by
  rcases possible with ⟨idle, _, all⟩
  simp only [perform]
  have room : loop.queued.length < uringEntries := by
    rw [idle]
    decide
  have armed : ({ loop with eventfdDone := loop.eventfdDone - 1 } : EventLoop σ).armEventfd =
      { loop with
        eventfdDone := loop.eventfdDone - 1
        queued := []
        flying := loop.flying ++ loop.queued
        eventfdReads := loop.eventfdReads + 1 } := by
    simp only [armEventfd, if_pos room]
    rfl
  have fewer : Rearranges loop { loop with eventfdDone := loop.eventfdDone - 1 } :=
    rearranges_same rfl rfl rfl rfl
  have rearranges := fewer.trans (rearranges_armEventfd _)
  rw [armed] at rearranges ⊢
  constructor
  · apply Runs.pumps
    constructor
    · exact rearranges.ticketed running.runs.ticketed
    · exact fun fd outside => rearranges.polls (running.runs.polls fd outside)
    · intro fd outside
      apply fed_of_closed
      rw [← Bool.not_eq_false]
      intro isOpen
      apply outside
      exact .inl (all.symm.subset ((mem_openFds loop fd).mpr isOpen))
    · exact .inl (Nat.succ_pos _)
  · apply listening_pumps
    exact running.listening

/-- A client that is open is known to the loop. -/
theorem Ticketed.known (ticketed : loop.Ticketed)
    (isOpen : (loop.server.client fd).closed = false) :
    loop.pollStates.lookup fd = some (loop.pollState fd) := by
  have numbered := ticketed.numbered fd isOpen
  simp only [pollState] at numbered ⊢
  cases found : loop.pollStates.lookup fd with
  | some state => rfl
  | none =>
      rw [found] at numbered
      exact absurd numbered (Nat.lt_irrefl _)

/-- A new client has the descriptor. -/
def register (loop : EventLoop σ) (fd now : Nat) (client : Client) : EventLoop σ :=
  { loop with
    server := loop.server.putClient fd client
    accepts := loop.accepts - 1
    pollStates := loop.pollStates.insert fd { number := loop.created, connected := now }
    created := loop.created + 1 }

theorem pollState_register {client : Client} {other now : Nat} (ticketed : loop.Ticketed)
    (isOpen : ((loop.register fd now client).server.client other).closed = false) :
    (loop.register fd now client).pollState other =
      if other = fd then { number := loop.created, connected := now }
      else loop.pollState other := by
  simp only [pollState, register, FiniteMap.lookup_insert_if]
  by_cases same : other = fd
  · rw [if_pos same, if_pos same]
    rfl
  · rw [if_neg same, if_neg same]
    simp only [register, Server.client_putClient, if_neg same] at isOpen
    rw [ticketed.known isOpen]
    rfl

theorem Runs.register (runs : loop.Runs ∅ ∅) (client : Client) (now : Nat) :
    (loop.register fd now client).Runs {fd} {fd} where
  ticketed := by
    constructor
    · intro ticket member
      exact Nat.lt_succ_of_lt (runs.ticketed.issued ticket member)
    · intro other isOpen
      rw [pollState_register runs.ticketed isOpen]
      by_cases same : other = fd
      · rw [if_pos same]
        exact Nat.lt_succ_self _
      · rw [if_neg same]
        simp only [EventLoop.register, Server.client_putClient, if_neg same] at isOpen
        exact Nat.lt_succ_of_lt (runs.ticketed.numbered other isOpen)
    · intro other isOpen forWrite
      simp only [EventLoop.ticket]
      rw [pollState_register runs.ticketed isOpen]
      by_cases same : other = fd
      · rw [if_pos same]
        -- no ticket has the new number yet
        have none : (EventLoop.register loop fd now client).tickets.count
            { client := loop.created, fd := other, forWrite } = 0 := by
          apply List.count_eq_zero_of_not_mem
          intro member
          exact Nat.lt_irrefl _ (runs.ticketed.issued _ member)
        rw [none]
        cases forWrite <;> rfl
      · rw [if_neg same]
        simp only [EventLoop.register, Server.client_putClient, if_neg same] at isOpen
        exact runs.ticketed.counted other isOpen forWrite
  polls other outside := by
    have different : other ≠ fd := outside
    intro isOpen
    rw [pollState_register runs.ticketed isOpen, if_neg different]
    simp only [EventLoop.register, Server.client_putClient, if_neg different] at isOpen ⊢
    exact runs.polls other (Set.notMem_empty other) isOpen
  fed other outside := by
    have different : other ≠ fd := outside
    simp only [Fed, EventLoop.register, Server.client_putClient, if_neg different]
    exact runs.fed other (Set.notMem_empty other)
  watching := runs.watching

theorem Running.accepted (running : loop.Running) {fd now : Nat}
    (unused : (loop.server.client fd).closed = true) : (loop.accepted fd now).Running := by
  simp only [EventLoop.accepted]
  by_cases full : loop.server.config.maxClients ≤ loop.server.openClients
  · rw [if_pos full]
    have same : loop.server.accept fd = loop.server.trouble := by
      simp [Server.accept, unused, full]
    refine ⟨Runs.armListener ?_, listening_armListener _⟩
    rw [same]
    have spares : Spares fd loop { loop with server := loop.server.trouble } :=
      spares_server (fun _ _ => rfl) id id
    have runs := (running.runs.mono (Set.empty_subset {fd}) (Set.empty_subset {fd})).spared
      rfl rfl spares
    have counted : ({ loop with
        accepts := loop.accepts - 1
        server := loop.server.trouble } : EventLoop σ).Runs {fd} {fd} :=
      runs.rearranged (rearranges_same rfl rfl rfl rfl) id runs.watching
    have closed : (({ loop with
        accepts := loop.accepts - 1
        server := loop.server.trouble } : EventLoop σ).server.client fd).closed = true := unused
    have whole : (insert fd ∅ : Set Nat) = {fd} := by simp
    rw [← whole] at counted
    exact counted.complete (polls_of_closed closed) (fed_of_closed closed)
  · rw [if_neg full]
    have same : loop.server.accept fd =
        loop.server.putClient fd (Client.connect loop.server.config fd) := by
      simp [Server.accept, unused, full]
    rw [same]
    refine ⟨Runs.armListener ?_, listening_armListener _⟩
    generalize connected : Client.connect loop.server.config fd = client
    have spares := spares_armClient fd (loop.register fd now client) fd false
    have runs := (running.runs.register client now).spared rfl rfl spares
    have here : (((loop.register fd now client).armClient fd false).server.client fd) =
        client := by
      rw [server_armClient]
      exact Server.client_putClient_self loop.server fd client
    have whole : (insert fd ∅ : Set Nat) = {fd} := by simp
    rw [← whole] at runs
    apply runs.complete
    · intro isOpen
      rw [here]
      rw [server_armClient] at isOpen
      refine ⟨armed_armClient _ fd false isOpen, ?_⟩
      rw [← connected]
      exact fun pending => absurd pending (Nat.lt_irrefl 0)
    · intro _
      rw [here, ← connected]
      exact .inl rfl

/-- The ticket of a closed client is gone. -/
theorem rearranges_stale {ticket : PollTicket} (stale : loop.stale ticket = true) :
    Rearranges loop { loop with flying := loop.flying.erase ticket } := by
  refine ⟨rfl, rfl, rfl, ?_, ?_⟩
  · intro other member
    simp only [tickets, List.mem_append] at member ⊢
    exact member.imp id List.mem_of_mem_erase
  · intro other current
    have different : other ≠ ticket := by
      intro same
      rw [same, stale] at current
      cases current
    simp only [tickets, List.count_append, List.count_erase_of_ne different]

/-- A ticket of a client that is open is the one that its number belongs to. -/
theorem ticket_of_current {ticket : PollTicket} (current : loop.stale ticket = false) :
    (loop.server.client ticket.fd).closed = false ∧
      ticket = loop.ticket ticket.fd ticket.forWrite := by
  simp only [stale, Bool.or_eq_false_iff, decide_eq_false_iff_not, ne_eq, not_not] at current
  refine ⟨current.1, ?_⟩
  simp only [EventLoop.ticket, current.2]

/-- The poll of an open client has come back. -/
def taken (loop : EventLoop σ) (ticket : PollTicket) (sends : List Send) : EventLoop σ :=
  { ({ loop with flying := loop.flying.erase ticket } : EventLoop σ).disarm ticket with
    server := { loop.server with sends } }

theorem pollState_taken (loop : EventLoop σ) (ticket : PollTicket) (sends : List Send)
    (other : Nat) :
    (loop.taken ticket sends).pollState other =
      if other = ticket.fd then (loop.pollState ticket.fd).setArmed ticket.forWrite false
      else loop.pollState other := by
  simp only [taken, disarm, pollState, FiniteMap.lookup_insert_if]
  by_cases same : other = ticket.fd
  · simp only [if_pos same]
    rfl
  · simp only [if_neg same]

theorem Runs.taken (runs : loop.Runs ∅ ∅) {ticket : PollTicket} (member : ticket ∈ loop.flying)
    (current : loop.stale ticket = false) (sends : List Send) :
    (loop.taken ticket sends).Runs {ticket.fd} {ticket.fd} where
  ticketed := by
    rcases ticket_of_current current with ⟨isOpen, mine⟩
    have once := runs.ticketed.counted ticket.fd isOpen ticket.forWrite
    rw [← mine] at once
    have there := List.count_pos_iff.mpr member
    have number : ∀ other, ((loop.taken ticket sends).pollState other).number =
        (loop.pollState other).number := by
      intro other
      rw [pollState_taken]
      by_cases same : other = ticket.fd
      · rw [if_pos same]
        rw [same, PollState.number_setArmed]
      · rw [if_neg same]
    constructor
    · intro other listed
      apply runs.ticketed.issued other
      simp only [tickets, EventLoop.taken, disarm, List.mem_append] at listed ⊢
      exact listed.imp id List.mem_of_mem_erase
    · intro other stillOpen
      rw [number]
      exact runs.ticketed.numbered other stillOpen
    · intro other stillOpen forWrite
      have before := runs.ticketed.counted other stillOpen forWrite
      have same : (loop.taken ticket sends).ticket other forWrite =
          loop.ticket other forWrite := by
        simp only [EventLoop.ticket, number]
      rw [same, pollState_taken]
      simp only [tickets, EventLoop.taken, disarm, List.count_append] at once before ⊢
      by_cases here : loop.ticket other forWrite = ticket
      · rw [mine, ticket_eq_iff] at here
        rw [here.1, here.2, ← mine, List.count_erase_self, if_pos rfl,
          PollState.armed_setArmed, if_pos rfl]
        split at once <;> simp <;> omega
      · rw [List.count_erase_of_ne here, before]
        by_cases its : other = ticket.fd
        · have different : forWrite ≠ ticket.forWrite := by
            intro write
            rw [its, write] at here
            exact here mine.symm
          rw [if_pos its, PollState.armed_setArmed, if_neg different, its]
        · rw [if_neg its]
  polls other outside := by
    have different : other ≠ ticket.fd := outside
    intro isOpen
    rw [pollState_taken, if_neg different]
    exact runs.polls other (Set.notMem_empty other) isOpen
  fed other _ := runs.fed other (Set.notMem_empty other)
  watching := runs.watching

/-! ## Completed polls -/

theorem spares_drainRead (loop : EventLoop σ) (fd : Nat) (reads : List ReadCall) :
    Spares fd loop { loop with server := (loop.server.drainRead fd reads).1 } := by
  rcases Server.reads_drainRead loop.server fd reads with ⟨others, closed, session⟩
  exact spares_server others (fun before => closed.trans before) fun known => by
    rw [session]
    exact known

/-- A client whose output is flushed is polled for what remains. -/
theorem Runs.writable (runs : loop.Runs {fd} {fd})
    (reads : (loop.server.client fd).closed = false → (loop.pollState fd).armed false = true)
    (fed : loop.Fed fd) : (writable database loop fd).Runs ∅ ∅ := by
  have whole : ({fd} : Set Nat) = insert fd ∅ := by simp
  have emits := Server.emits_flushOutput loop.server fd
  have spares := spares_flushOutput loop fd
  simp only [EventLoop.writable]
  rcases flushing : loop.server.flushOutput fd with ⟨flushed, result⟩
  rw [flushing] at emits spares
  have flushes := runs.spared rfl rfl spares
  have wasOpen : (flushed.client fd).closed = false →
      (loop.server.client fd).closed = false := by
    intro isOpen
    cases before : (loop.server.client fd).closed with
    | false => rfl
    | true =>
        rw [emits.closed before] at isOpen
        cases isOpen
  have stillFed : ({ loop with server := flushed } : EventLoop σ).Fed fd := by
    intro isOpen
    have waits := fed (wasOpen isOpen)
    rw [← emits.inBuf] at waits
    exact waits
  cases result with
  | complete =>
      rw [whole] at flushes
      apply flushes.complete _ stillFed
      intro isOpen
      refine ⟨reads (wasOpen isOpen), fun pending => ?_⟩
      rw [show (({ loop with server := flushed } : EventLoop σ).server.client fd).pendingOut = 0
        from pendingOut_of_complete flushing] at pending
      exact absurd pending (Nat.lt_irrefl 0)
  | pending =>
      have arms := spares_armClient fd ({ loop with server := flushed } : EventLoop σ) fd true
      have armed := flushes.spared rfl rfl arms
      rw [whole] at armed
      apply armed.complete
      · intro isOpen
        rw [server_armClient] at isOpen
        exact ⟨armed_of_armed _ fd fd true false (reads (wasOpen isOpen)),
          fun _ => armed_armClient _ fd true isOpen⟩
      · simp only [Fed, server_armClient]
        rw [arms.frame]
        exact stillFed
  | dead =>
      have closes := flushes.spared rfl rfl (spares_scheduleClose database fd _ fd)
      have closed := Server.closed_scheduleClose database flushed fd
      rw [whole] at closes
      exact closes.complete (polls_of_closed closed) (fed_of_closed closed)

/-- A client that is read is served. -/
theorem Runs.readable (runs : loop.Runs {fd} {fd}) (reads : List ReadCall) :
    (readable database loop fd reads).Runs ∅ ∅ := by
  have whole : ({fd} : Set Nat) = insert fd ∅ := by simp
  have drains := spares_drainRead loop fd reads
  simp only [EventLoop.readable]
  rcases draining : loop.server.drainRead fd reads with ⟨read, success⟩
  rw [draining] at drains
  cases success with
  | false =>
      have closes := runs.spared rfl rfl
        (drains.trans (spares_scheduleClose database fd _ fd))
      have closed := Server.closed_scheduleClose database read fd
      rw [whole] at closes
      exact closes.complete (polls_of_closed closed) (fed_of_closed closed)
  | true =>
      have spares := drains.trans (spares_serve database _ fd)
      have polls := polls_serve database { loop with server := read } fd
      have waits := waits_serve database { loop with server := read } fd
      have served := runs.spared rfl rfl spares
      dsimp only at spares served ⊢
      rcases serving : serve database { loop with server := read } fd with ⟨next, more⟩
      rw [serving] at polls waits served
      cases more with
      | true =>
          have queued := served.queueWork
          rw [whole] at queued
          exact queued.complete polls (fed_queueWork next fd)
      | false =>
          dsimp only
          by_cases full :
              (next.server.client fd).inputCap ≤ List.length (next.server.client fd).inBuf
          · rw [if_pos full]
            have troubled : Spares fd next { next with server := next.server.trouble } :=
              spares_server (fun _ _ => rfl) id id
            have closes := served.spared rfl rfl
              (troubled.trans (spares_scheduleClose database fd _ fd))
            have closed := Server.closed_scheduleClose database next.server.trouble fd
            rw [whole] at closes
            exact closes.complete (polls_of_closed closed) (fed_of_closed closed)
          · rw [if_neg full]
            rw [whole] at served
            exact served.complete polls fun isOpen => .inl (waits rfl isOpen)

theorem listening_writable (listening : loop.Listening) :
    (writable database loop fd).Listening := by
  have spares := spares_flushOutput loop fd
  simp only [EventLoop.writable]
  rcases flushing : loop.server.flushOutput fd with ⟨flushed, result⟩
  rw [flushing] at spares
  cases result with
  | complete => exact spares.listening listening
  | pending => exact (spares.trans (spares_armClient fd _ fd true)).listening listening
  | dead => exact (spares.trans (spares_scheduleClose database fd _ fd)).listening listening

theorem listening_readable (listening : loop.Listening) (reads : List ReadCall) :
    (readable database loop fd reads).Listening := by
  have drains := spares_drainRead loop fd reads
  simp only [EventLoop.readable]
  rcases draining : loop.server.drainRead fd reads with ⟨read, success⟩
  rw [draining] at drains
  cases success with
  | false => exact (drains.trans (spares_scheduleClose database fd _ fd)).listening listening
  | true =>
      have served := (drains.trans (spares_serve database _ fd)).listening listening
      dsimp only at served ⊢
      rcases serving : serve database { loop with server := read } fd with ⟨next, more⟩
      rw [serving] at served
      cases more with
      | true => exact served
      | false =>
          dsimp only
          by_cases full :
              (next.server.client fd).inputCap ≤ List.length (next.server.client fd).inBuf
          · rw [if_pos full]
            exact served
          · rw [if_neg full]
            exact served

theorem Running.poll (running : loop.Running) {ticket : PollTicket}
    (member : ticket ∈ loop.flying) (reads : List ReadCall) (sends : List Send) :
    (loop.perform database (.poll ticket reads sends)).Running := by
  simp only [perform]
  have same : ({ loop with flying := loop.flying.erase ticket } : EventLoop σ).stale ticket =
      loop.stale ticket := rfl
  rw [same]
  cases current : loop.stale ticket with
  | true =>
      rw [if_pos rfl]
      exact ⟨running.runs.rearranged (rearranges_stale current) id running.runs.watching,
        running.listening⟩
  | false =>
      rw [if_neg (by decide)]
      rcases ticket_of_current current with ⟨isOpen, _⟩
      have runs := running.runs.taken member current sends
      have listening : (loop.taken ticket sends).Listening := running.listening
      simp only [completed]
      cases write : ticket.forWrite with
      | true =>
          refine ⟨Runs.writable runs ?_ ?_, listening_writable listening⟩
          · intro _
            have back := pollState_taken loop ticket sends ticket.fd
            rw [if_pos rfl, write] at back
            change ((loop.taken ticket sends).pollState ticket.fd).armed false = true
            rw [back, PollState.armed_setArmed]
            exact (running.runs.polls ticket.fd (Set.notMem_empty _) isOpen).1
          · exact running.runs.fed ticket.fd (Set.notMem_empty _)
      | false => exact ⟨Runs.readable runs reads, listening_readable listening reads⟩

/-! ## The sweep -/

theorem spares_closeLate (database : Database σ) (other : Nat) (loop : EventLoop σ) (fd : Nat) :
    Spares other loop (loop.closeLate database fd) := by
  simp only [closeLate]
  by_cases closed : (loop.server.client fd).closed = true
  · rw [if_pos closed]
    exact .refl other loop
  · rw [if_neg closed]
    have troubled : Spares other loop { loop with server := loop.server.trouble } :=
      spares_server (fun _ _ => rfl) id id
    exact troubled.trans (spares_scheduleClose database other _ fd)

theorem spares_closings (database : Database σ) (other : Nat) (loop : EventLoop σ)
    (order : List Nat) : Spares other loop (order.foldl (closeLate database) loop) := by
  induction order generalizing loop with
  | nil => exact .refl other loop
  | cons fd rest induction =>
      exact (spares_closeLate database other loop fd).trans (induction _)

/-- A step that serves no one keeps the loop running. -/
theorem Runs.spared_all (runs : loop.Runs ∅ ∅) (spares : ∀ fd, Spares fd loop after) :
    after.Runs ∅ ∅ where
  ticketed := (spares 0).ticketed runs.ticketed
  polls fd outside :=
    (spares (fd + 1)).polls fd (Nat.ne_of_lt (Nat.lt_succ_self fd)) (runs.polls fd outside)
  fed fd outside := by
    have wider := (runs.mono (Set.empty_subset {fd + 1}) (Set.empty_subset {fd + 1})).spared
      rfl rfl (spares (fd + 1))
    exact wider.fed fd (Nat.ne_of_lt (Nat.lt_succ_self fd))
  watching := by
    rw [(spares 0).frame]
    exact runs.watching

theorem Running.sweep (running : loop.Running) (now : Nat) (order : List Nat) :
    (loop.sweep database now order).Running := by
  have spares : ∀ fd, Spares fd loop
      ((order.filter (loop.late now)).foldl (closeLate database) loop) :=
    fun fd => spares_closings database fd loop _
  have runs := running.runs.spared_all spares
  have listening := (spares 0).listening running.listening
  simp only [EventLoop.sweep]
  generalize (order.filter (loop.late now)).foldl (closeLate database) loop = kept at runs listening
  by_cases same : kept.acceptPaused = true
  · rw [if_pos same]
    have clear : ({ kept with acceptFailures := 0, acceptPaused := false } :
        EventLoop σ).Runs ∅ ∅ :=
      runs.rearranged (rearranges_same rfl rfl rfl rfl) id runs.watching
    have listens := clear.armListener
    exact ⟨listens.rearranged (rearranges_same rfl rfl rfl rfl) id listens.watching,
      listening_armListener _⟩
  · rw [if_neg same]
    exact ⟨runs.rearranged (rearranges_same rfl rfl rfl rfl) id runs.watching, listening⟩

/-! ## Runs -/

theorem Running.step (running : loop.Running) (event : LoopEvent) :
    (loop.step database event).Running := by
  simp only [EventLoop.step]
  by_cases possible : loop.Possible event
  · rw [if_pos possible]
    cases event with
    | cycle =>
        have cycled := running.cycle
        exact ⟨cycled.runs.rearranged (rearranges_same rfl rfl rfl rfl) id cycled.runs.watching,
          cycled.listening⟩
    | waitFails =>
        have moved := running.runs.rearranged (rearranges_submitBacklog loop) id
          running.runs.watching
        exact ⟨moved.rearranged (rearranges_same rfl rfl rfl rfl) id moved.watching,
          running.listening⟩
    | startTimeout => exact running.startTimeout
    | accepted fd now => exact running.accepted possible.2.2
    | acceptFails failure =>
        have fewer : ({ loop with accepts := loop.accepts - 1 } : EventLoop σ).Runs ∅ ∅ :=
          running.runs.rearranged (rearranges_same rfl rfl rfl rfl) id running.runs.watching
        have counted : ({ loop with
            accepts := loop.accepts - 1
            acceptFailures := loop.acceptFailures + 1 } : EventLoop σ).Runs ∅ ∅ :=
          running.runs.rearranged (rearranges_same rfl rfl rfl rfl) id running.runs.watching
        cases failure with
        | interrupted => exact ⟨fewer.armListener, listening_armListener _⟩
        | shortage =>
            exact ⟨counted.rearranged (rearranges_same rfl rfl rfl rfl) id counted.watching,
              .inr rfl⟩
        | other => exact ⟨counted.armListener, listening_armListener _⟩
    | eventfdRead =>
        refine ⟨running.runs.rearranged (rearranges_same rfl rfl rfl rfl) ?_ ?_,
          running.listening⟩
        · exact fun _ => .inr (Nat.succ_pos _)
        · exact .inr (Nat.succ_pos _)
    | pump order => exact running.pump possible
    | poll ticket reads sends => exact running.poll possible.2 reads sends
    | sweep now order => exact running.sweep now order
  · rw [if_neg possible]
    exact running

theorem Running.run (running : loop.Running) (events : List LoopEvent) :
    (loop.run database events).Running := by
  induction events generalizing loop with
  | nil => exact running
  | cons event rest induction => exact induction (running.step event)

theorem running_start (config : NetConfig) (db : σ) (now : Nat) :
    (start config db now).Running := by
  have closed : ∀ fd, ((start config db now).server.client fd).closed = true := by
    intro fd
    simp [start, Server.client]
  have none : (start config db now).tickets = [] := by
    simp [start, EventLoop.armListener, armEventfd, submit, tickets, uringEntries]
  constructor
  · constructor
    · constructor
      · intro ticket member
        rw [none] at member
        cases member
      · intro fd isOpen
        rw [closed fd] at isOpen
        cases isOpen
      · intro fd isOpen
        rw [closed fd] at isOpen
        cases isOpen
    · exact fun fd _ => polls_of_closed (closed fd)
    · exact fun fd _ => fed_of_closed (closed fd)
    · left
      simp [start, EventLoop.armListener, armEventfd, submit, uringEntries]
  · left
    simp [start, EventLoop.armListener, armEventfd, submit, uringEntries]

/-- In every run, whatever completes, fails or is delayed, and whatever descriptors
are used again: an open client has exactly one poll for input and at most one for
output, and has one if it has output to be sent; if a request waits in its input the
loop has been woken and will come to it. The eventfd is always watched, and
connections are accepted unless the sweep will see to it. -/
theorem connections_never_forgotten (database : Database σ) (config : NetConfig) (db : σ)
    (now : Nat) (events : List LoopEvent) :
    (∀ fd, (((start config db now).run database events).server.client fd).closed = false →
      ((start config db now).run database events).tickets.count
          (((start config db now).run database events).ticket fd false) = 1 ∧
        ((start config db now).run database events).tickets.count
          (((start config db now).run database events).ticket fd true) ≤ 1 ∧
        (0 < (((start config db now).run database events).server.client fd).pendingOut →
          ((start config db now).run database events).tickets.count
            (((start config db now).run database events).ticket fd true) = 1) ∧
        (Resp.parseRequest
            (((start config db now).run database events).server.client fd).inBuf 0 = .needMore ∨
          0 < ((start config db now).run database events).eventfd ∨
          0 < ((start config db now).run database events).eventfdDone)) ∧
      (0 < ((start config db now).run database events).eventfdReads ∨
        0 < ((start config db now).run database events).eventfdDone) ∧
      (0 < ((start config db now).run database events).accepts ∨
        ((start config db now).run database events).acceptPaused = true) := by
  have running : ((start config db now).run database events).Running :=
    (running_start config db now).run events
  generalize (start config db now).run database events = loop at running
  refine ⟨?_, running.runs.watching, running.listening⟩
  intro fd isOpen
  have counted := running.runs.ticketed.counted fd isOpen
  rcases running.runs.polls fd (Set.notMem_empty fd) isOpen with ⟨reads, writes⟩
  refine ⟨?_, ?_, ?_, running.runs.fed fd (Set.notMem_empty fd) isOpen⟩
  · rw [counted false, reads, if_pos rfl]
  · rw [counted true]
    by_cases same : (loop.pollState fd).armed true = true
    · rw [if_pos same]
    · rw [if_neg same]
      omega
  · intro pending
    rw [counted true, writes pending, if_pos rfl]

/-- What the events of a run do to the connections. -/
def netTrace (database : Database σ) (loop : EventLoop σ) : List LoopEvent → List NetEvent
  | [] => []
  | event :: rest => loop.netEvents event ++ netTrace database (loop.step database event) rest

theorem server_run (database : Database σ) (loop : EventLoop σ) (events : List LoopEvent) :
    (loop.run database events).server =
      loop.server.run database (netTrace database loop events) := by
  induction events generalizing loop with
  | nil => rfl
  | cons event rest induction =>
      have later := induction (loop.step database event)
      rw [server_step] at later
      simp only [EventLoop.run, List.foldl_cons, netTrace, Server.run, List.foldl_append]
        at later ⊢
      exact later

/-- The loop over the ring refines the connections: for every run, with polls that
complete in any order, tickets of clients that are gone, descriptors that are used
again and a queue that is full, what the loop has done to the connections and to the
database is a run of the connections alone. What holds of all runs of these holds
of the program. -/
theorem event_loop_refines_connections (database : Database σ) (config : NetConfig) (db : σ)
    (now : Nat) (events : List LoopEvent) :
    ((start config db now).run database events).server =
      Server.run database { config, db } (netTrace database (start config db now) events) := by
  rw [server_run, start, server_armEventfd, server_armListener]

end EventLoop

end SomniumDB.Net
