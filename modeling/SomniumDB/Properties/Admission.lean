import SomniumDB.Properties.Authentication
import SomniumDB.Properties.EventLoop

/-! # Who gets a place

The loop keeps at most as many clients as the configuration says, and a client
that does not authenticate loses its place. -/

namespace SomniumDB.Net

open Bytes

namespace EventLoop

variable {σ : Type u} {database : Database σ} {loop after : EventLoop σ} {fd : Nat}

/-- No client has been added. -/
structure Ages (loop after : EventLoop σ) : Prop where
  closed : ∀ fd, (loop.server.client fd).closed = true → (after.server.client fd).closed = true
  known : ∀ fd, (loop.server.client fd).session.authenticated = true →
    (after.server.client fd).session.authenticated = true
  connected : ∀ fd, (after.pollState fd).connected = (loop.pollState fd).connected
  nextSweep : after.nextSweep = loop.nextSweep

theorem Ages.refl (loop : EventLoop σ) : Ages loop loop :=
  ⟨fun _ => id, fun _ => id, fun _ => rfl, rfl⟩

theorem Ages.trans {third : EventLoop σ} (left : Ages loop after) (right : Ages after third) :
    Ages loop third where
  closed fd before := right.closed fd (left.closed fd before)
  known fd before := right.known fd (left.known fd before)
  connected fd := (right.connected fd).trans (left.connected fd)
  nextSweep := right.nextSweep.trans left.nextSweep

theorem Spares.ages (spares : Spares fd loop after) : Ages loop after :=
  ⟨spares.closed, spares.known, spares.connected, by rw [spares.frame]⟩

theorem Rearranges.ages (rearranges : Rearranges loop after)
    (nextSweep : after.nextSweep = loop.nextSweep) : Ages loop after := by
  refine ⟨?_, ?_, ?_, nextSweep⟩
  · intro fd
    rw [rearranges.server]
    exact id
  · intro fd
    rw [rearranges.server]
    exact id
  · intro fd
    rw [rearranges.pollState]

theorem ages_same (server : after.server = loop.server)
    (states : after.pollStates = loop.pollStates) (created : after.created = loop.created)
    (nextSweep : after.nextSweep = loop.nextSweep) : Ages loop after := by
  have same : ∀ fd, after.pollState fd = loop.pollState fd := by
    intro fd
    simp only [pollState, states, created]
  refine ⟨?_, ?_, ?_, nextSweep⟩
  · intro fd
    rw [server]
    exact id
  · intro fd
    rw [server]
    exact id
  · intro fd
    rw [same]

theorem ages_armListener (loop : EventLoop σ) : Ages loop loop.armListener := by
  apply (rearranges_armListener loop).ages
  simp only [armListener]
  by_cases short : loop.queued.length < uringEntries
  · rw [if_pos short]
    rfl
  · rw [if_neg short]

theorem ages_armEventfd (loop : EventLoop σ) : Ages loop loop.armEventfd := by
  apply (rearranges_armEventfd loop).ages
  simp only [armEventfd]
  by_cases short : loop.queued.length < uringEntries
  · rw [if_pos short]
    rfl
  · rw [if_neg short]

theorem ages_pumpClient (database : Database σ) (loop : EventLoop σ) (fd : Nat)
    (sends : List Send) : Ages loop (loop.pumpClient database fd sends) := by
  simp only [pumpClient]
  by_cases empty :
      ((loop.server.client fd).closed || decide ((loop.server.client fd).inBuf = [])) = true
  · rw [if_pos empty]
    exact .refl loop
  · rw [if_neg empty]
    have supplies : Spares fd loop { loop with server := { loop.server with sends } } :=
      spares_server (fun _ _ => rfl) id id
    have served := (supplies.trans (spares_serve database _ fd)).ages
    rcases serving : serve database { loop with server := { loop.server with sends } } fd with
      ⟨next, more⟩
    rw [serving] at served
    cases more with
    | true => exact served.trans (ages_same rfl rfl rfl rfl)
    | false => exact served

theorem ages_pumps (database : Database σ) (loop : EventLoop σ)
    (order : List (Nat × List Send)) :
    Ages loop (order.foldl (fun loop entry => loop.pumpClient database entry.1 entry.2)
      loop) := by
  induction order generalizing loop with
  | nil => exact .refl loop
  | cons entry rest induction =>
      exact (ages_pumpClient database loop entry.1 entry.2).trans (induction _)

theorem ages_writable (database : Database σ) (loop : EventLoop σ) (fd : Nat) :
    Ages loop (writable database loop fd) := by
  have spares := spares_flushOutput loop fd
  simp only [writable]
  rcases flushing : loop.server.flushOutput fd with ⟨flushed, result⟩
  rw [flushing] at spares
  cases result with
  | complete => exact spares.ages
  | pending => exact (spares.trans (spares_armClient fd _ fd true)).ages
  | dead => exact (spares.trans (spares_scheduleClose database fd _ fd)).ages

theorem ages_readable (database : Database σ) (loop : EventLoop σ) (fd : Nat)
    (reads : List ReadCall) : Ages loop (readable database loop fd reads) := by
  have drains := spares_drainRead loop fd reads
  simp only [readable]
  rcases draining : loop.server.drainRead fd reads with ⟨read, success⟩
  rw [draining] at drains
  cases success with
  | false => exact (drains.trans (spares_scheduleClose database fd _ fd)).ages
  | true =>
      have served := drains.trans (spares_serve database _ fd)
      dsimp only at served ⊢
      rcases serving : serve database { loop with server := read } fd with ⟨next, more⟩
      rw [serving] at served
      cases more with
      | true => exact served.ages.trans (ages_same rfl rfl rfl rfl)
      | false =>
          dsimp only
          by_cases full :
              (next.server.client fd).inputCap ≤ List.length (next.server.client fd).inBuf
          · rw [if_pos full]
            have troubled : Spares fd next { next with server := next.server.trouble } :=
              spares_server (fun _ _ => rfl) id id
            exact (served.trans (troubled.trans (spares_scheduleClose database fd _ fd))).ages
          · rw [if_neg full]
            exact served.ages

theorem ages_poll (database : Database σ) (loop : EventLoop σ) (ticket : PollTicket)
    (reads : List ReadCall) (sends : List Send) :
    Ages loop (loop.perform database (.poll ticket reads sends)) := by
  simp only [perform]
  split
  · exact ages_same rfl rfl rfl rfl
  · have taken : Ages loop (loop.taken ticket sends) := by
      refine ⟨fun _ => id, fun _ => id, ?_, rfl⟩
      intro fd
      rw [pollState_taken]
      by_cases here : fd = ticket.fd
      · rw [if_pos here]
        rw [here, PollState.connected_setArmed]
      · rw [if_neg here]
    simp only [completed]
    by_cases same : ticket.forWrite = true
    · rw [if_pos same]
      exact taken.trans (ages_writable database _ ticket.fd)
    · rw [if_neg same]
      exact taken.trans (ages_readable database _ ticket.fd reads)

theorem ages_acceptFails (loop : EventLoop σ) (failure : AcceptFailure) :
    Ages loop (loop.acceptFails failure) := by
  have fewer : Ages loop { loop with accepts := loop.accepts - 1 } := ages_same rfl rfl rfl rfl
  have counted : Ages loop { loop with
      accepts := loop.accepts - 1
      acceptFailures := loop.acceptFailures + 1 } := ages_same rfl rfl rfl rfl
  cases failure with
  | interrupted => exact fewer.trans (ages_armListener _)
  | shortage => exact ages_same rfl rfl rfl rfl
  | other => exact counted.trans (ages_armListener _)

/-! ## Places -/

theorem nodup_openFds (loop : EventLoop σ) : loop.openFds.Nodup :=
  loop.server.clients.toPairs_nodup_keys.sublist (List.filter_sublist.map Prod.fst)

theorem length_openFds (loop : EventLoop σ) : loop.openFds.length = loop.server.openClients := by
  simp only [openFds, Server.openClients, List.length_map]

/-- Without a new client there are not more of them. -/
theorem Ages.openClients_le (ages : Ages loop after) :
    after.server.openClients ≤ loop.server.openClients := by
  rw [← length_openFds, ← length_openFds]
  apply ((nodup_openFds after).subperm _).length_le
  intro fd member
  rw [mem_openFds] at member ⊢
  cases before : (loop.server.client fd).closed with
  | false => rfl
  | true =>
      rw [ages.closed fd before] at member
      cases member

theorem client_accept {server : Server σ} {other : Nat} (different : other ≠ fd) :
    (server.accept fd).client other = server.client other := by
  simp only [Server.accept]
  by_cases alive : (!(server.client fd).closed) = true
  · rw [if_pos alive]
  · rw [if_neg alive]
    by_cases full : server.config.maxClients ≤ server.openClients
    · rw [if_pos full]
      rfl
    · rw [if_neg full]
      rw [Server.client_putClient, if_neg different]

/-- A new client takes one place. -/
theorem openClients_accept (loop : EventLoop σ) (fd : Nat)
    (free : loop.server.openClients < loop.server.config.maxClients) :
    (loop.server.accept fd).openClients ≤ loop.server.config.maxClients := by
  have places : (loop.server.accept fd).openClients ≤ (fd :: loop.openFds).length := by
    rw [← length_openFds { loop with server := loop.server.accept fd }]
    apply ((nodup_openFds _).subperm _).length_le
    intro other member
    rw [mem_openFds] at member
    by_cases same : other = fd
    · rw [same]
      exact List.mem_cons_self
    · rw [client_accept same] at member
      exact List.mem_cons_of_mem _ ((mem_openFds loop other).mpr member)
  rw [List.length_cons, length_openFds] at places
  omega

/-- The clock of an event, where the loop reads it. -/
def timeOf : LoopEvent → Option Nat
  | .accepted _ now | .sweep now _ => some now
  | _ => none

/-- The clock does not go back. -/
def Timely (clock : Nat) : List LoopEvent → Prop
  | [] => True
  | event :: rest =>
      (∀ now, timeOf event = some now → clock ≤ now) ∧
        Timely ((timeOf event).getD clock) rest

/-- A client that has not authenticated has not been here for long when the loop
looks. -/
structure Admitted (config : NetConfig) (clock : Nat) (loop : EventLoop σ) : Prop where
  config_eq : loop.server.config = config
  seats : loop.server.openClients ≤ config.maxClients
  soon : loop.nextSweep ≤ clock + sweepInterval
  late : ∀ fd, (loop.server.client fd).closed = false →
    (loop.server.client fd).session.authenticated = false →
    loop.nextSweep ≤ (loop.pollState fd).connected + authTimeout + sweepInterval

theorem Admitted.ages {config : NetConfig} {clock : Nat} (admitted : Admitted config clock loop)
    (ages : Ages loop after) (same : after.server.config = config) :
    Admitted config clock after where
  config_eq := same
  seats := ages.openClients_le.trans admitted.seats
  soon := by
    rw [ages.nextSweep]
    exact admitted.soon
  late fd isOpen unknown := by
    rw [ages.nextSweep, ages.connected]
    apply admitted.late fd
    · cases before : (loop.server.client fd).closed with
      | false => rfl
      | true =>
          rw [ages.closed fd before] at isOpen
          cases isOpen
    · cases before : (loop.server.client fd).session.authenticated with
      | false => rfl
      | true =>
          rw [ages.known fd before] at unknown
          cases unknown

theorem Admitted.later {config : NetConfig} {clock now : Nat}
    (admitted : Admitted config clock loop) (passes : clock ≤ now) : Admitted config now loop :=
  ⟨admitted.config_eq, admitted.seats,
    admitted.soon.trans (Nat.add_le_add_right passes sweepInterval), admitted.late⟩

theorem config_step (database : Database σ) (loop : EventLoop σ) (event : LoopEvent) :
    (loop.step database event).server.config = loop.server.config := by
  rw [server_step, Server.config_run]

theorem Admitted.accepted {config : NetConfig} {clock : Nat}
    (admitted : Admitted config clock loop) (unused : (loop.server.client fd).closed = true)
    (now : Nat) (passes : clock ≤ now) : Admitted config now (loop.accepted fd now) := by
  have was := admitted.later passes
  simp only [EventLoop.accepted]
  by_cases full : loop.server.config.maxClients ≤ loop.server.openClients
  · rw [if_pos full]
    have refused : loop.server.accept fd = loop.server.trouble := by
      simp [Server.accept, unused, full]
    rw [refused]
    have troubled : Spares fd loop { loop with server := loop.server.trouble } :=
      spares_server (fun _ _ => rfl) id id
    have fewer : Ages loop { loop with
        accepts := loop.accepts - 1
        server := loop.server.trouble } := troubled.ages.trans (ages_same rfl rfl rfl rfl)
    apply was.ages (fewer.trans (ages_armListener _))
    rw [server_armListener]
    exact admitted.config_eq
  · rw [if_neg full]
    have seats := openClients_accept loop fd (Nat.lt_of_not_le full)
    have same : (loop.server.accept fd).config = config := by
      rw [← admitted.config_eq]
      simp only [Server.accept]
      split <;> rfl
    generalize registered : ({ loop with
      accepts := loop.accepts - 1
      server := loop.server.accept fd
      pollStates := loop.pollStates.insert fd { number := loop.created, connected := now }
      created := loop.created + 1 } : EventLoop σ) = next
    have here : Admitted config now next := by
      constructor
      · rw [← registered]
        exact same
      · rw [← registered, ← admitted.config_eq]
        exact seats
      · rw [← registered]
        exact was.soon
      · intro other isOpen unknown
        rw [← registered] at isOpen unknown ⊢
        simp only [pollState, FiniteMap.lookup_insert_if]
        by_cases its : other = fd
        · rw [if_pos its]
          have soon := was.soon
          simp only [Option.getD_some]
          omega
        · rw [if_neg its]
          simp only [client_accept its] at isOpen unknown
          have late := was.late other isOpen unknown
          simp only [pollState] at late
          cases found : loop.pollStates.lookup other with
          | none =>
              rw [found] at late
              exact late
          | some state =>
              rw [found] at late
              exact late
    have armed : Ages next (next.armClient fd false).armListener :=
      (spares_armClient fd next fd false).ages.trans (ages_armListener _)
    have config_eq : (next.armClient fd false).armListener.server.config = config := by
      rw [server_armListener, server_armClient]
      exact here.config_eq
    exact here.ages armed config_eq

/-- The sweep closes every client that has had its time. -/
theorem closed_closings {order : List Nat} {other : Nat} (listed : other ∈ order) :
    ((order.foldl (closeLate database) loop).server.client other).closed = true := by
  induction order generalizing loop with
  | nil => cases listed
  | cons fd rest induction =>
      rcases List.mem_cons.mp listed with here | later
      · have closes : ((loop.closeLate database fd).server.client fd).closed = true := by
          simp only [closeLate]
          by_cases gone : (loop.server.client fd).closed = true
          · rw [if_pos gone]
            assumption
          · rw [if_neg gone]
            exact Server.closed_scheduleClose database loop.server.trouble fd
        rw [here]
        exact (spares_closings database fd (loop.closeLate database fd) rest).closed fd closes
      · exact induction later

theorem Admitted.sweep {config : NetConfig} {clock now : Nat} {order : List Nat}
    (admitted : Admitted config clock loop) (all : order.Perm loop.openFds)
    (same : (loop.sweep database now order).server.config = config) :
    Admitted config now (loop.sweep database now order) := by
  have closed : ∀ fd ∈ order.filter (loop.late now),
      (((order.filter (loop.late now)).foldl (closeLate database) loop).server.client fd).closed =
        true := fun fd member => closed_closings member
  have closes := (spares_closings database 0 loop (order.filter (loop.late now))).ages
  simp only [EventLoop.sweep] at same ⊢
  generalize (order.filter (loop.late now)).foldl (closeLate database) loop = kept
    at closed closes same ⊢
  generalize listens : (if ({ kept with acceptFailures := 0 } : EventLoop σ).acceptPaused = true
    then ({ kept with acceptFailures := 0, acceptPaused := false } : EventLoop σ).armListener
    else { kept with acceptFailures := 0 }) = listening at same ⊢
  have ages : Ages kept listening := by
    rw [← listens]
    split
    · have clear : Ages kept { kept with acceptFailures := 0, acceptPaused := false } :=
        ages_same rfl rfl rfl rfl
      exact clear.trans (ages_armListener _)
    · exact ages_same rfl rfl rfl rfl
  have whole := closes.trans ages
  constructor
  · exact same
  · exact whole.openClients_le.trans admitted.seats
  · exact le_rfl
  · intro fd isOpen unknown
    have stillOpen : (kept.server.client fd).closed = false := by
      cases before : (kept.server.client fd).closed with
      | false => rfl
      | true =>
          have shut := ages.closed fd before
          rw [show (listening.server.client fd).closed = false from isOpen] at shut
          cases shut
    have wasOpen : (loop.server.client fd).closed = false := by
      cases before : (loop.server.client fd).closed with
      | false => rfl
      | true =>
          rw [closes.closed fd before] at stillOpen
          cases stillOpen
    have wasUnknown : (loop.server.client fd).session.authenticated = false := by
      cases before : (loop.server.client fd).session.authenticated with
      | false => rfl
      | true =>
          have knows := whole.known fd before
          rw [show (listening.server.client fd).session.authenticated = false from unknown]
            at knows
          cases knows
    have notLate : loop.late now fd = false := by
      rw [← Bool.not_eq_true]
      intro isLate
      have listed := all.symm.subset ((mem_openFds loop fd).mpr wasOpen)
      rw [closed fd (List.mem_filter.mpr ⟨listed, isLate⟩)] at stillOpen
      cases stillOpen
    simp only [EventLoop.late, wasUnknown, Bool.not_false, Bool.true_and, decide_eq_false_iff_not,
      Nat.not_lt] at notLate
    have connected := whole.connected fd
    change now + sweepInterval ≤ (listening.pollState fd).connected + authTimeout + sweepInterval
    omega

theorem Admitted.step {config : NetConfig} {clock : Nat} (admitted : Admitted config clock loop)
    {event : LoopEvent} (passes : ∀ now, timeOf event = some now → clock ≤ now) :
    Admitted config ((timeOf event).getD clock) (loop.step database event) := by
  have same := (config_step database loop event).trans admitted.config_eq
  simp only [EventLoop.step] at same ⊢
  by_cases possible : loop.Possible event
  · rw [if_pos possible]
    rw [if_pos possible] at same
    cases event with
    | cycle =>
        have moved := (rearranges_submitBacklog loop).trans (rearranges_submit _)
        exact admitted.ages ((moved.ages rfl).trans (ages_same rfl rfl rfl rfl)) same
    | waitFails =>
        have moved := (rearranges_submitBacklog loop).ages rfl
        exact admitted.ages (moved.trans (ages_same rfl rfl rfl rfl)) same
    | startTimeout =>
        have moved := ((rearranges_submitBacklog loop).trans (rearranges_submit _)).ages rfl
        exact admitted.ages
          ((moved.trans (ages_armListener _)).trans (ages_armEventfd _)) same
    | accepted fd now => exact admitted.accepted possible.2.2 now (passes now rfl)
    | acceptFails failure => exact admitted.ages (ages_acceptFails loop failure) same
    | eventfdRead => exact admitted.ages (ages_same rfl rfl rfl rfl) same
    | pump order =>
        have fewer : Ages loop { loop with eventfdDone := loop.eventfdDone - 1 } :=
          ages_same rfl rfl rfl rfl
        exact admitted.ages ((fewer.trans (ages_armEventfd _)).trans (ages_pumps database _ order))
          same
    | poll ticket reads sends => exact admitted.ages (ages_poll database loop ticket reads sends) same
    | sweep now order => exact admitted.sweep possible.2.2 same
  · rw [if_neg possible]
    cases time : timeOf event with
    | none => exact admitted
    | some now => exact admitted.later (passes now time)

theorem Admitted.run {config : NetConfig} {clock : Nat} (admitted : Admitted config clock loop)
    {events : List LoopEvent} (timely : Timely clock events) :
    ∃ last, Admitted config last (loop.run database events) := by
  induction events generalizing loop clock with
  | nil => exact ⟨clock, admitted⟩
  | cons event rest induction => exact induction (admitted.step timely.1) timely.2

theorem admitted_start (config : NetConfig) (db : σ) (now : Nat) :
    Admitted config now (start config db now) := by
  have nothing : Admitted config now ({ server := { config, db }, nextSweep := now } :
      EventLoop σ) := by
    constructor
    · rfl
    · exact Nat.zero_le _
    · exact Nat.le_add_right _ _
    · intro fd isOpen
      simp [Server.client] at isOpen
  have arms : Ages ({ server := { config, db }, nextSweep := now } : EventLoop σ)
      (start config db now) := (ages_armListener _).trans (ages_armEventfd _)
  apply nothing.ages arms
  rw [start, server_armEventfd, server_armListener]

/-- In every run in which the clock does not go back, there are never more clients
than `SOMNIUM_MAXCLIENTS`, and after each sweep every client that is still not
authenticated was accepted at most `AUTH_TIMEOUT` before it, whatever it sends and
whatever the other clients do. -/
theorem places_bounded (database : Database σ) (config : NetConfig) (db : σ) (now : Nat)
    {events : List LoopEvent} (timely : Timely now events) :
    ((start config db now).run database events).server.openClients ≤ config.maxClients ∧
      ∀ fd, (((start config db now).run database events).server.client fd).closed = false →
        (((start config db now).run database events).server.client fd).session.authenticated =
          false →
        ((start config db now).run database events).nextSweep ≤
          (((start config db now).run database events).pollState fd).connected + authTimeout +
            sweepInterval := by
  rcases (admitted_start config db now).run timely with ⟨last, admitted⟩
  exact ⟨admitted.seats, admitted.late⟩

/-- Two clients connect to a server with a password and say nothing. -/
def silentClients : List LoopEvent :=
  [.accepted 5 3, .cycle, .accepted 6 19000, .cycle, .sweep 20000 [5, 6]]

def silent : EventLoop Nat :=
  (start { password := ascii "secret" } 0 1).run Server.counter silentClients

/-- The sweep closes the first of them and leaves the second. -/
theorem places_bounded_silent :
    (silent.server.client 5).closed = true ∧ (silent.server.client 6).closed = false ∧
      silent.server.openClients ≤ 10000 ∧
      silent.nextSweep ≤ (silent.pollState 6).connected + authTimeout + sweepInterval := by
  have timely : Timely 1 silentClients := by
    refine ⟨?_, ?_, ?_, ?_, ?_, trivial⟩
    all_goals
      intro now time
      cases time
      try decide
  have left : (silent.server.client 6).closed = false := by decide +kernel
  have unknown : (silent.server.client 6).session.authenticated = false := by decide +kernel
  rcases places_bounded Server.counter { password := ascii "secret" } 0 1 timely with
    ⟨places, late⟩
  exact ⟨by decide +kernel, left, places, late 6 left unknown⟩

end EventLoop

end SomniumDB.Net
