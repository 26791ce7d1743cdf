import SomniumDB.Core.RespStream
import SomniumDB.Net.Frames

/-! # What one connection puts out

The functions that answer, queue, send and close, seen from one connection that is alone
on the server: what they add to its output, and that they leave the rest of it alone. -/

namespace SomniumDB.Net

open Bytes

/-- What has been sent and what is still to be sent is what has been queued. -/
structure Client.Ordered (client : Client) : Prop where
  within : client.outOff ≤ client.outBuf.length
  order : client.sent ++ client.outBuf.drop client.outOff = client.enqueued

namespace Server

variable {σ : Type u} {server after : Server σ} {database : Database σ} {fd : Nat}

/-! ## Access to clients -/

theorem client_putClient (server : Server σ) (fd other : Nat) (client : Client) :
    (server.putClient fd client).client other =
      if other = fd then client else server.client other := by
  unfold Server.client putClient
  rw [FiniteMap.lookup_insert_if]
  by_cases same : other = fd
  · simp only [if_pos same]
    rfl
  · simp only [if_neg same]

theorem client_putClient_self (server : Server σ) (fd : Nat) (client : Client) :
    (server.putClient fd client).client fd = client := by
  rw [client_putClient, if_pos rfl]

theorem client_track (server : Server σ) (fd other : Nat) :
    (server.track fd).client other =
      if other = fd then { server.client fd with held := (server.client fd).buffered }
      else server.client other := by
  change (server.putClient fd _).client other = _
  exact client_putClient server fd other _

theorem client_track_self (server : Server σ) (fd : Nat) (client : Client) :
    ((server.putClient fd client).track fd).client fd =
      { client with held := client.buffered } := by
  rw [client_track, if_pos rfl, client_putClient_self]

theorem client_track_other (server : Server σ) {fd other : Nat} (client : Client)
    (different : other ≠ fd) :
    ((server.putClient fd client).track fd).client other = server.client other := by
  rw [client_track, if_neg different, client_putClient, if_neg different]

def Alone (fd : Nat) (server : Server σ) : Prop :=
  ∀ other, other ≠ fd → (server.client other).closed = true

/-- There is a reason to close the client: it has come to its end, or a cap, a budget or a
call is in the way. -/
def Excused (fd : Nat) (server : Server σ) : Prop :=
  server.troubled = true ∨ (server.client fd).outcome ≠ .running

/-- A step that queues `added` for the client, or a beginning of it if it closes the
client, and does nothing else to it. -/
structure Emits (fd : Nat) (added : Bytes) (server after : Server σ) : Prop where
  config : after.config = server.config
  others : ∀ other, other ≠ fd → after.client other = server.client other
  session : (after.client fd).session = (server.client fd).session
  dispatched : (after.client fd).dispatched = (server.client fd).dispatched
  inBuf : (after.client fd).inBuf = (server.client fd).inBuf
  received : (after.client fd).received = (server.client fd).received
  outcome : (after.client fd).outcome = (server.client fd).outcome
  closed : (server.client fd).closed = true → (after.client fd).closed = true
  troubled : server.troubled = true → after.troubled = true
  /-- A client is closed for a reason. -/
  closes : (after.client fd).closed = true →
    (server.client fd).closed = true ∨ Excused fd after
  /-- Nothing is queued for a closed client. -/
  silent : (server.client fd).closed = true →
    (after.client fd).enqueued = (server.client fd).enqueued
  queued : (after.client fd).closed = false →
    (after.client fd).enqueued = (server.client fd).enqueued ++ added ∧ after.db = server.db
  part : ∃ front, front <+: added ∧
    (after.client fd).enqueued = (server.client fd).enqueued ++ front
  ordered : (server.client fd).Ordered → (after.client fd).Ordered

theorem Emits.alone {added : Bytes} (emits : Emits fd added server after)
    (alone : server.Alone fd) : after.Alone fd := by
  intro other different
  rw [emits.others other different]
  exact alone other different

theorem Emits.excused {added : Bytes} (emits : Emits fd added server after)
    (excused : server.Excused fd) : after.Excused fd := by
  rcases excused with troubled | finished
  · exact .inl (emits.troubled troubled)
  · refine .inr ?_
    rw [emits.outcome]
    exact finished

theorem emits_nothing : Emits fd [] server server :=
  ⟨rfl, fun _ _ => rfl, rfl, rfl, rfl, rfl, rfl, id, id, .inl, fun _ => rfl,
    fun _ => ⟨(List.append_nil _).symm, rfl⟩, ⟨[], List.nil_prefix, (List.append_nil _).symm⟩, id⟩

theorem emits_closed (closed : (server.client fd).closed = true) (added : Bytes) :
    Emits fd added server server :=
  ⟨rfl, fun _ _ => rfl, rfl, rfl, rfl, rfl, rfl, id, id, .inl, fun _ => rfl,
    fun isOpen => absurd closed (by rw [isOpen]; decide),
    ⟨[], List.nil_prefix, (List.append_nil _).symm⟩, id⟩

theorem Emits.trans {third : Server σ} {first second : Bytes} (left : Emits fd first server after)
    (right : Emits fd second after third) : Emits fd (first ++ second) server third where
  config := right.config.trans left.config
  others other different := (right.others other different).trans (left.others other different)
  session := right.session.trans left.session
  dispatched := right.dispatched.trans left.dispatched
  inBuf := right.inBuf.trans left.inBuf
  received := right.received.trans left.received
  outcome := right.outcome.trans left.outcome
  closed := right.closed ∘ left.closed
  troubled := right.troubled ∘ left.troubled
  closes closed := by
    rcases right.closes closed with before | excused
    · rcases left.closes before with first | excused
      · exact .inl first
      · exact .inr (right.excused excused)
    · exact .inr excused
  silent closed := (right.silent (left.closed closed)).trans (left.silent closed)
  queued isOpen := by
    have between : (after.client fd).closed = false := by
      cases closed : (after.client fd).closed with
      | false => rfl
      | true =>
          rw [right.closed closed] at isOpen
          cases isOpen
    rcases left.queued between with ⟨queued, db⟩
    rcases right.queued isOpen with ⟨later, last⟩
    refine ⟨?_, last.trans db⟩
    rw [later, queued, List.append_assoc]
  part := by
    cases closed : (after.client fd).closed with
    | true =>
        rcases left.part with ⟨front, isPrefix, equal⟩
        exact ⟨front, isPrefix.trans (List.prefix_append _ _), (right.silent closed).trans equal⟩
    | false =>
        rcases right.part with ⟨front, isPrefix, equal⟩
        refine ⟨first ++ front, (List.prefix_append_right_inj first).mpr isPrefix, ?_⟩
        rw [equal, (left.queued closed).1, List.append_assoc]
  ordered := right.ordered ∘ left.ordered

theorem emits_trouble (server : Server σ) (fd : Nat) : Emits fd [] server server.trouble :=
  ⟨rfl, fun _ _ => rfl, rfl, rfl, rfl, rfl, rfl, id, fun _ => rfl, .inl, fun _ => rfl,
    fun _ => ⟨(List.append_nil _).symm, rfl⟩, ⟨[], List.nil_prefix, (List.append_nil _).symm⟩,
    id⟩

/-! ## Sending -/

theorem flushLoop_fields (client : Client) (sends : List Send) :
    ∃ outOff sent, (client.flushLoop sends).1 = { client with outOff, sent } ∧
      (client.Ordered → ({ client with outOff, sent } : Client).Ordered) ∧
      ((client.flushLoop sends).2.1 = .complete → client.outBuf.length ≤ outOff) := by
  induction sends generalizing client with
  | nil =>
      unfold Client.flushLoop
      by_cases pending : client.outOff < client.outBuf.length
      · rw [if_pos pending]
        exact ⟨client.outOff, client.sent, rfl, id, fun complete => by cases complete⟩
      · rw [if_neg pending]
        exact ⟨client.outOff, client.sent, rfl, id, fun _ => Nat.le_of_not_lt pending⟩
  | cons send rest induction =>
      unfold Client.flushLoop
      by_cases pending : client.outOff < client.outBuf.length
      · rw [if_pos pending]
        cases send with
        | sent count =>
            dsimp only
            by_cases empty : List.take count (List.drop client.outOff client.outBuf) = []
            · rw [if_pos empty]
              exact ⟨client.outOff, client.sent, rfl, id, fun complete => by cases complete⟩
            · rw [if_neg empty]
              generalize takenEq : (client.outBuf.drop client.outOff).take count = taken
              obtain ⟨outOff, sent, equal, ordered, complete⟩ := induction
                { client with outOff := client.outOff + taken.length, sent := client.sent ++ taken }
              refine ⟨outOff, sent, equal, ?_, complete⟩
              intro before
              apply ordered
              have length : taken.length ≤ (client.outBuf.drop client.outOff).length := by
                rw [← takenEq]
                exact List.length_take_le' _ _
              rw [List.length_drop] at length
              refine ⟨?_, ?_⟩
              · have := before.within
                change client.outOff + taken.length ≤ client.outBuf.length
                omega
              · change client.sent ++ taken ++ client.outBuf.drop (client.outOff + taken.length) = _
                have split := List.prefix_iff_eq_append.mp
                  (List.take_prefix count (client.outBuf.drop client.outOff))
                rw [takenEq, List.drop_drop] at split
                rw [List.append_assoc, split]
                exact before.order
        | interrupted => exact induction client
        | again => exact ⟨client.outOff, client.sent, rfl, id, fun complete => by cases complete⟩
        | failed => exact ⟨client.outOff, client.sent, rfl, id, fun complete => by cases complete⟩
      · rw [if_neg pending]
        exact ⟨client.outOff, client.sent, rfl, id, fun _ => Nat.le_of_not_lt pending⟩

theorem emits_flushOutput (server : Server σ) (fd : Nat) :
    Emits fd [] server (server.flushOutput fd).1 := by
  rcases flushLoop_fields (server.client fd) server.sends with
    ⟨outOff, sent, fields, ordered, complete⟩
  unfold flushOutput
  rcases looped : (server.client fd).flushLoop server.sends with ⟨client, result, sends⟩
  rw [looped] at fields complete
  obtain rfl : client = { server.client fd with outOff, sent } := fields
  have moved : Emits fd [] server
      ({ server with sends }.putClient fd { server.client fd with outOff, sent }) := by
    have here : ({ server with sends }.putClient fd
        { server.client fd with outOff, sent }).client fd =
        { server.client fd with outOff, sent } := client_putClient_self _ _ _
    refine ⟨rfl, ?_, ?_, ?_, ?_, ?_, ?_, ?_, id, ?_, ?_, ?_, ?_, ?_⟩
    all_goals try rw [here]
    · intro other different
      exact (client_putClient _ _ _ _).trans (if_neg different)
    · exact id
    · exact .inl
    · exact fun _ => rfl
    · exact fun _ => ⟨(List.append_nil _).symm, rfl⟩
    · exact ⟨[], List.nil_prefix, (List.append_nil _).symm⟩
    · exact ordered
  cases result with
  | pending => exact moved
  | dead =>
      have troubled := moved.trans (emits_trouble _ fd)
      rw [List.append_nil] at troubled
      exact troubled
  | complete =>
      have here : (({ server with sends }.putClient fd
          { server.client fd with outOff := 0, sent, outBuf := [] }).track fd).client fd =
          { ({ server.client fd with outOff := 0, sent, outBuf := [] } : Client) with
            held := ({ server.client fd with outOff := 0, sent, outBuf := [] } :
              Client).buffered } := client_track_self _ _ _
      refine ⟨rfl, ?_, ?_, ?_, ?_, ?_, ?_, ?_, id, ?_, ?_, ?_, ?_, ?_⟩
      all_goals try rw [here]
      · intro other different
        exact client_track_other _ _ different
      · exact id
      · exact .inl
      · exact fun _ => rfl
      · exact fun _ => ⟨(List.append_nil _).symm, rfl⟩
      · exact ⟨[], List.nil_prefix, (List.append_nil _).symm⟩
      · intro before
        have after := ordered before
        have all : (server.client fd).outBuf.drop outOff = [] :=
          List.drop_eq_nil_of_le (complete rfl)
        refine ⟨Nat.zero_le _, ?_⟩
        have order := after.order
        change sent ++ [] = (server.client fd).enqueued
        change sent ++ (server.client fd).outBuf.drop outOff = (server.client fd).enqueued at order
        rw [all] at order
        exact order

theorem excused_flushOutput (server : Server σ) (fd : Nat)
    (dead : (server.flushOutput fd).2 = .dead) : (server.flushOutput fd).1.Excused fd := by
  revert dead
  unfold flushOutput
  rcases (server.client fd).flushLoop server.sends with ⟨client, result, sends⟩
  cases result with
  | complete => rintro ⟨⟩
  | pending => rintro ⟨⟩
  | dead => exact fun _ => .inl rfl

/-- What is queued comes after what was there; what is refused closes the client. -/
theorem emits_enqueueOutput (server : Server σ) (fd : Nat) (data : Bytes) :
    ((server.enqueueOutput fd data).2 = true ∧
        Emits fd data server (server.enqueueOutput fd data).1 ∧
        ((server.enqueueOutput fd data).1.client fd).closed = false) ∨
      ((server.enqueueOutput fd data).2 = false ∧
        Emits fd [] server (server.enqueueOutput fd data).1 ∧
        ((server.client fd).closed = true ∨
          (server.enqueueOutput fd data).1.Excused fd)) := by
  unfold enqueueOutput
  dsimp only
  split
  · rename_i closed
    exact .inr ⟨rfl, emits_nothing, .inl closed⟩
  · rename_i isOpen
    split
    · exact .inr ⟨rfl, emits_trouble server fd, .inr (.inl rfl)⟩
    · split
      · exact .inr ⟨rfl, emits_trouble server fd, .inr (.inl rfl)⟩
      · have here := client_track_self server fd
          { server.client fd with
            outBuf := (server.client fd).outBuf ++ data
            enqueued := (server.client fd).enqueued ++ data }
        refine .inl ⟨rfl, ⟨rfl, ?_, ?_, ?_, ?_, ?_, ?_, ?_, id, ?_, ?_, ?_, ?_, ?_⟩, ?_⟩
        all_goals try rw [here]
        · intro other different
          exact client_track_other _ _ different
        · exact id
        · exact .inl
        · exact fun closed => absurd closed isOpen
        · exact fun _ => ⟨rfl, rfl⟩
        · exact ⟨data, List.prefix_rfl, rfl⟩
        · intro before
          have within := before.within
          refine ⟨?_, ?_⟩
          · change (server.client fd).outOff ≤ ((server.client fd).outBuf ++ data).length
            rw [List.length_append]
            omega
          · change (server.client fd).sent ++
              ((server.client fd).outBuf ++ data).drop (server.client fd).outOff =
              (server.client fd).enqueued ++ data
            rw [List.drop_append_of_le_length within, ← List.append_assoc, before.order]
        · exact Bool.eq_false_of_not_eq_true isOpen

theorem emits_scheduleClose (database : Database σ) (server : Server σ) (fd : Nat)
    (added : Bytes) (reason : (server.client fd).closed = true ∨ server.Excused fd) :
    Emits fd added server (scheduleClose database server fd) ∧
      ((scheduleClose database server fd).client fd).closed = true := by
  unfold scheduleClose
  dsimp only
  by_cases closed : (server.client fd).closed = true
  · rw [if_pos closed]
    exact ⟨emits_closed closed added, closed⟩
  · rw [if_neg closed]
    have here := client_track_self server fd { server.client fd with closed := true }
    have others : ∀ other, other ≠ fd → ((server.putClient fd
        { server.client fd with closed := true }).track fd).client other = server.client other :=
      fun other different => client_track_other server _ different
    generalize closedEq : (server.putClient fd
      { server.client fd with closed := true }).track fd = closed at here others
    have config : closed.config = server.config := by
      rw [← closedEq]
      rfl
    have same : ∀ db other, ({ closed with db } : Server σ).client other = closed.client other :=
      fun _ _ => rfl
    have troubled : closed.troubled = server.troubled := by
      rw [← closedEq]
      rfl
    have excused : ∀ db, server.Excused fd → ({ closed with db } : Server σ).Excused fd := by
      intro db before
      rcases before with before | finished
      · exact .inl (troubled.trans before)
      · refine .inr ?_
        rw [same, here]
        exact finished
    refine ⟨⟨config, others, ?_, ?_, ?_, ?_, ?_, ?_, ?_, ?_, ?_, ?_, ?_, ?_⟩, ?_⟩
    case refine_7 => exact fun before => troubled.trans before
    case refine_8 => exact fun _ => reason.imp id (excused _)
    all_goals rw [same, here]
    · exact fun _ => rfl
    · exact fun _ => rfl
    · rintro ⟨⟩
    · exact ⟨[], List.nil_prefix, (List.append_nil _).symm⟩
    · exact fun before => ⟨before.within, before.order⟩

/-! ## What is left alone -/

/-- Of a client only the output is concerned, and its stream does not end. -/
structure Alike (client after : Client) : Prop where
  hungUp : after.outcome = .hungUp → client.outcome = .hungUp
  session : after.session = client.session
  dispatched : after.dispatched = client.dispatched
  received : after.received = client.received

theorem Alike.refl (client : Client) : Alike client client :=
  ⟨id, rfl, rfl, rfl⟩

/-- A step that concerns the output only. -/
structure Quiet (server after : Server σ) : Prop where
  config : after.config = server.config
  troubled : server.troubled = true → after.troubled = true
  alike : ∀ fd, Alike (server.client fd) (after.client fd)

theorem Quiet.refl : Quiet server server :=
  ⟨rfl, id, fun fd => .refl (server.client fd)⟩

theorem Quiet.trans {third : Server σ} (left : Quiet server after) (right : Quiet after third) :
    Quiet server third where
  config := right.config.trans left.config
  troubled := right.troubled ∘ left.troubled
  alike fd :=
    { hungUp := (left.alike fd).hungUp ∘ (right.alike fd).hungUp
      session := (right.alike fd).session.trans (left.alike fd).session
      dispatched := (right.alike fd).dispatched.trans (left.alike fd).dispatched
      received := (right.alike fd).received.trans (left.alike fd).received }

theorem quiet_track (server : Server σ) (fd : Nat) : Quiet server (server.track fd) := by
  refine ⟨rfl, id, ?_⟩
  intro other
  rw [client_track]
  by_cases same : other = fd
  · rw [if_pos same, same]
    exact ⟨id, rfl, rfl, rfl⟩
  · rw [if_neg same]
    exact .refl _

theorem quiet_putClient {client : Client} (alike : Alike (server.client fd) client) :
    Quiet server (server.putClient fd client) := by
  refine ⟨rfl, id, ?_⟩
  intro other
  rw [client_putClient]
  by_cases same : other = fd
  · rw [if_pos same, same]
    exact alike
  · rw [if_neg same]
    exact .refl _

theorem quiet_track_putClient {client : Client} (alike : Alike (server.client fd) client) :
    Quiet server ((server.putClient fd client).track fd) :=
  (quiet_putClient alike).trans (quiet_track _ fd)

theorem Emits.quiet {added : Bytes} (emits : Emits fd added server after) :
    Quiet server after := by
  refine ⟨emits.config, emits.troubled, ?_⟩
  intro other
  by_cases same : other = fd
  · rw [same]
    exact ⟨fun finished => emits.outcome.symm.trans finished, emits.session, emits.dispatched,
      emits.received⟩
  · rw [emits.others other same]
    exact .refl _

theorem quiet_enqueueOutput (server : Server σ) (fd : Nat) (data : Bytes) :
    Quiet server (server.enqueueOutput fd data).1 := by
  rcases emits_enqueueOutput server fd data with ⟨_, emits, _⟩ | ⟨_, emits, _⟩
  · exact emits.quiet
  · exact emits.quiet

theorem quiet_scheduleClose (database : Database σ) (server : Server σ) (fd : Nat) :
    Quiet server (scheduleClose database server fd) := by
  unfold scheduleClose
  dsimp only
  by_cases gone : (server.client fd).closed = true
  · rw [if_pos gone]
    exact .refl
  · rw [if_neg gone]
    have closed : Quiet server
        ((server.putClient fd { server.client fd with closed := true }).track fd) :=
      quiet_track_putClient ⟨id, rfl, rfl, rfl⟩
    exact ⟨closed.config, closed.troubled, closed.alike⟩

theorem closed_scheduleClose (database : Database σ) (server : Server σ) (fd : Nat) :
    ((scheduleClose database server fd).client fd).closed = true := by
  unfold scheduleClose
  dsimp only
  by_cases gone : (server.client fd).closed = true
  · rw [if_pos gone]
    assumption
  · rw [if_neg gone]
    have here := client_track_self server fd { server.client fd with closed := true }
    exact congrArg Client.closed here

theorem quiet_deliverPubsub (database : Database σ) (server : Server σ)
    (message : Nat × Bytes) : Quiet server (deliverPubsub database server message) := by
  unfold deliverPubsub
  dsimp only
  by_cases closed : (server.client message.1).closed = true
  · rw [if_pos closed]
    exact .refl
  · rw [if_neg closed]
    generalize (if (server.client message.1).session.resp3 = true then asPush message.2
      else message.2) = text
    have queue := quiet_enqueueOutput server message.1 text
    rcases enqueued : server.enqueueOutput message.1 text with ⟨queued, accepted⟩
    rw [enqueued] at queue
    cases accepted with
    | false => exact queue.trans (quiet_scheduleClose database queued message.1)
    | true =>
        have flush := queue.trans (emits_flushOutput queued message.1).quiet
        dsimp only
        rcases flushing : queued.flushOutput message.1 with ⟨flushed, result⟩
        rw [flushing] at flush
        cases result with
        | dead => exact flush.trans (quiet_scheduleClose database flushed message.1)
        | complete => exact flush
        | pending => exact flush

theorem quiet_deliveries (database : Database σ) (server : Server σ)
    (messages : List (Nat × Bytes)) :
    Quiet server (messages.foldl (deliverPubsub database) server) := by
  induction messages generalizing server with
  | nil => exact .refl
  | cons message rest induction =>
      exact (quiet_deliverPubsub database server message).trans (induction _)

theorem quiet_eraseInput (server : Server σ) (fd pos : Nat) :
    Quiet server (server.eraseInput fd pos) :=
  quiet_track_putClient ⟨id, rfl, rfl, rfl⟩

theorem quiet_frames (fd : Nat) : Hosts.Frames fd (@Quiet σ) where
  refl _ := .refl
  trans := .trans
  enqueue server data := quiet_enqueueOutput server fd data
  flush server := (emits_flushOutput server fd).quiet
  erase server pos := quiet_eraseInput server fd pos
  answered _ := quiet_putClient ⟨fun finished => (nomatch finished), rfl, rfl, rfl⟩

theorem quiet_afterLoop (database : Database σ) (server : Server σ) (fd : Nat) :
    Quiet (processLoop database fd maxCommandsPerTurn 0 server).1
      (processBuffered database server fd).1 :=
  (quiet_frames fd).afterLoop _ server

theorem frames_serve {keeps : Server σ → Server σ → Prop} (frames : Hosts.Frames fd keeps)
    (commands : ∀ server args, keeps server (command database server fd args).1)
    (closes : ∀ server, keeps server (scheduleClose database server fd)) (server : Server σ) :
    keeps server (serve database server fd).1 := by
  have processes : keeps server (processBuffered database server fd).1 :=
    frames.processBuffered commands server
  unfold serve
  rcases processed : processBuffered database server fd with ⟨served, turn⟩
  rw [processed] at processes
  cases turn with
  | drop => exact frames.trans processes (closes served)
  | done => exact processes
  | more => exact processes

theorem frames_drainRead {keeps : Server σ → Server σ → Prop} (refl : ∀ server, keeps server server)
    (trans : ∀ {first second third}, keeps first second → keeps second third → keeps first third)
    (hangsUp : ∀ server, keeps server (server.hangUp fd))
    (troubles : ∀ server, keeps server server.trouble)
    (read : ∀ (server : Server σ) (taken : Bytes), keeps server
      ((server.putClient fd { server.client fd with
        inBuf := (server.client fd).inBuf ++ taken
        received := (server.client fd).received ++ taken }).track fd))
    (server : Server σ) (reads : List ReadCall) : keeps server (server.drainRead fd reads).1 := by
  induction reads generalizing server with
  | nil => exact refl server
  | cons call rest induction =>
      unfold drainRead
      dsimp only
      by_cases full : (server.client fd).inputCap ≤ (server.client fd).inBuf.length
      · rw [if_pos full]
        exact refl server
      · rw [if_neg full]
        cases call with
        | interrupted => exact induction server
        | again => exact refl server
        | failed => exact hangsUp server
        | got bytes =>
            dsimp only
            by_cases ended : bytes.take readChunk = []
            · rw [if_pos ended]
              exact hangsUp server
            · rw [if_neg ended]
              have grows := read server (bytes.take readChunk)
              generalize (server.putClient fd _).track fd = grown at grows ⊢
              by_cases exceeds : grown.overBufferBudget 0 = true
              · rw [if_pos exceeds]
                exact trans grows (troubles grown)
              · rw [if_neg exceeds]
                by_cases short : (bytes.take readChunk).length < readChunk
                · rw [if_pos short]
                  exact grows
                · rw [if_neg short]
                  exact trans grows (induction grown)

/-! ## Commands -/

theorem processLoop_succ (database : Database σ) (fd budget pos : Nat) (server : Server σ) :
    processLoop database fd (budget + 1) pos server =
      match Resp.parseRequest (server.client fd).inBuf pos with
      | .needMore => (server, pos, .waiting)
      | .malformed => (server, pos, .malformed)
      | .complete stop args =>
          if isQuit args then (server, stop, .quit)
          else
            match command database server fd args with
            | (answered, reply) =>
                if reply = [] then processLoop database fd budget stop answered
                else
                  match answered.enqueueOutput fd reply with
                  | (refused, false) => (refused, stop, .overflow)
                  | (queued, true) => processLoop database fd budget stop queued :=
  rfl

theorem processBuffered_eq (database : Database σ) (server : Server σ) (fd : Nat) :
    processBuffered database server fd =
      match processLoop database fd maxCommandsPerTurn 0 server with
      | (refused, _, .overflow) => (refused, .drop)
      | (processed, pos, .quit) => (processed.eraseInput fd pos).finish fd (ascii "+OK\r\n")
      | (processed, pos, .malformed) =>
          (processed.eraseInput fd pos).finish fd (ascii "-ERR Protocol error\r\n")
      | (processed, pos, ending) =>
          match (processed.eraseInput fd pos).flushOutput fd with
          | (flushed, .dead) => (flushed, .drop)
          | (flushed, _) =>
              (flushed,
                if ending = .budget ∧ (flushed.client fd).inBuf ≠ [] then .more else .done) := by
  unfold processBuffered Hosts.processBuffered processLoop
  rcases Hosts.processLoop _ fd maxCommandsPerTurn 0 server with ⟨processed, pos, ending⟩
  have flushed : ∀ turn : Server σ → Turn,
      (match (processed.eraseInput fd pos).flushOutput fd with
        | (flushed, .dead) => (Hosts.withServer processed flushed, Turn.drop)
        | (flushed, _) => (Hosts.withServer processed flushed, turn flushed)) =
      match (processed.eraseInput fd pos).flushOutput fd with
        | (flushed, .dead) => (flushed, Turn.drop)
        | (flushed, _) => (flushed, turn flushed) := by
    intro turn
    rcases (processed.eraseInput fd pos).flushOutput fd with ⟨flushed, result⟩
    cases result <;> rfl
  cases ending with
  | overflow => rfl
  | quit => rfl
  | malformed => rfl
  | budget => exact flushed _
  | waiting => exact flushed _

/-- What a delivered message looks like to the client. -/
def delivered (fd : Nat) (session : Session) (message : Nat × Bytes) : Bytes :=
  if message.1 = fd then if session.resp3 then asPush message.2 else message.2 else []

theorem emits_deliverPubsub (database : Database σ) (server : Server σ) (message : Nat × Bytes)
    (alone : server.Alone fd) :
    Emits fd (delivered fd (server.client fd).session message) server
      (deliverPubsub database server message) := by
  unfold deliverPubsub delivered
  dsimp only
  by_cases mine : message.1 = fd
  · rw [if_pos mine, mine]
    generalize (if (server.client fd).session.resp3 = true then asPush message.2
      else message.2) = text
    by_cases closed : (server.client fd).closed = true
    · rw [if_pos closed]
      exact emits_closed closed _
    · rw [if_neg closed]
      rcases emits_enqueueOutput server fd text with
        ⟨accepted, emits, _⟩ | ⟨refused, emits, reason⟩
      · rcases enqueued : server.enqueueOutput fd text with ⟨queued, success⟩
        rw [enqueued] at accepted emits
        obtain rfl : success = true := accepted
        have flushed := emits.trans (emits_flushOutput queued fd)
        have excused := excused_flushOutput queued fd
        dsimp only
        rcases flushing : queued.flushOutput fd with ⟨sent, result⟩
        rw [flushing] at flushed excused
        rw [List.append_nil] at flushed
        cases result with
        | complete => exact flushed
        | pending => exact flushed
        | dead =>
            have closed := flushed.trans
              (emits_scheduleClose database sent fd [] (.inr (excused rfl))).1
            rw [List.append_nil] at closed
            exact closed
      · rcases enqueued : server.enqueueOutput fd text with ⟨queued, success⟩
        rw [enqueued] at refused emits reason
        obtain rfl : success = false := refused
        exact emits.trans
          (emits_scheduleClose database queued fd text (reason.imp emits.closed id)).1
  · rw [if_neg mine, if_pos (alone message.1 mine)]
    exact emits_nothing

theorem emits_deliveries (database : Database σ) (server : Server σ)
    (messages : List (Nat × Bytes)) (alone : server.Alone fd) :
    Emits fd (messages.flatMap (delivered fd (server.client fd).session)) server
      (messages.foldl (deliverPubsub database) server) := by
  induction messages generalizing server with
  | nil => exact emits_nothing
  | cons message rest induction =>
      have first := emits_deliverPubsub database server message alone
      have later := induction _ (first.alone alone)
      rw [first.session] at later
      exact first.trans later

end Server

end SomniumDB.Net
