import SomniumDB.Library.Runs
import SomniumDB.Net.Turns

/-! # A connection answers its stream

However the bytes of a connection are cut into reads, however many commands a turn may
handle and however much each `send` takes: the commands that are dispatched and the bytes
that are queued are those of the whole stream read in one go. -/

namespace SomniumDB.Net

open Bytes SomniumDB.Stream

namespace Server

variable {σ : Type u} {server after : Server σ} {database : Database σ} {fd : Nat}

/-! ## The whole stream at once -/

/-- The requests of a stream, up to `QUIT` or to what cannot be read. -/
def requests (stream : Bytes) : Items UInt8 (List Bytes) :=
  Resp.requestReader.all isQuit stream

/-- What a command leaves of the session and the database, and what it adds to the
output: the messages delivered meanwhile, then the reply. -/
def exchange (config : NetConfig) (database : Database σ) (fd : Nat) (state : Session × σ)
    (args : List Bytes) : (Session × σ) × Bytes :=
  let (session, db, messages, reply) := answer config database fd state.1 state.2 args
  ((session, db), messages.flatMap (delivered fd session) ++ reply)

/-- The commands answered one after the other. -/
def converse (config : NetConfig) (database : Database σ) (fd : Nat) :
    Session × σ → List (List Bytes) → (Session × σ) × Bytes
  | state, [] => (state, [])
  | state, args :: rest =>
      let first := exchange config database fd state args
      let later := converse config database fd first.1 rest
      (later.1, first.2 ++ later.2)

/-- The reply after which the connection is closed. -/
def farewell : Ending → Bytes
  | .waiting => []
  | .bad => ascii "-ERR Protocol error\r\n"
  | .last => ascii "+OK\r\n"

/-- The session of a new connection and the database it finds. -/
def beginning (config : NetConfig) (db : σ) : Session × σ :=
  ({ authenticated := config.password = [] }, db)

/-- Everything that is queued for a connection that sends the stream. -/
def output (config : NetConfig) (database : Database σ) (fd : Nat) (db : σ) (stream : Bytes) :
    Bytes :=
  (converse config database fd (beginning config db) (requests stream).values).2 ++
    farewell (requests stream).ending

theorem converse_append (config : NetConfig) (database : Database σ) (fd : Nat)
    (state : Session × σ) (front back : List (List Bytes)) :
    converse config database fd state (front ++ back) =
      let first := converse config database fd state front
      let second := converse config database fd first.1 back
      (second.1, first.2 ++ second.2) := by
  induction front generalizing state with
  | nil => rfl
  | cons args rest induction =>
      rw [List.cons_append, converse, converse, induction]
      dsimp only
      rw [List.append_assoc]

/-! ## Within one turn -/

section Conversation

variable (config : NetConfig) (database : Database σ) (fd : Nat) (db : σ)

/-- What holds of a connection, closed or not: it has dispatched a beginning of the
requests that it received, and queued a beginning of the answers. -/
structure Halted (server : Server σ) : Prop where
  config_eq : server.config = config
  alone : server.Alone fd
  dispatched : (server.client fd).dispatched <+: (requests (server.client fd).received).values
  enqueued : (server.client fd).enqueued <+:
    output config database fd db (server.client fd).received
  ordered : (server.client fd).Ordered
  answered : (server.client fd).outcome = .answered →
    (server.client fd).dispatched = (requests (server.client fd).received).values ∧
      (server.client fd).enqueued = output config database fd db (server.client fd).received
  /-- What the peer leaves behind when it ends the stream has not been dispatched. -/
  hungUp : (server.client fd).outcome = .hungUp →
    requests (server.client fd).received =
        (requests (server.client fd).inBuf).prepend (server.client fd).dispatched ∧
      (converse config database fd (beginning config db) (server.client fd).dispatched).2 =
        (server.client fd).enqueued
  excused : (server.client fd).closed = true → server.Excused fd

/-- In the middle of the input, at `pos`: the rest of the input has the requests that are
still to come, and unless the connection has been closed everything dispatched has been
answered. -/
structure Progress (pos : Nat) (server : Server σ) : Prop where
  halted : Halted config database fd db server
  parsed : requests (server.client fd).received =
    (requests ((server.client fd).inBuf.drop pos)).prepend (server.client fd).dispatched
  answered : (server.client fd).closed = false →
    converse config database fd (beginning config db) (server.client fd).dispatched =
      (((server.client fd).session, server.db), (server.client fd).enqueued)
  running : (server.client fd).outcome = .running

variable {config database fd db}

/-- What has been dispatched and answered is the beginning of the whole output. -/
theorem output_of_converse {stream queued : Bytes} {front back : List (List Bytes)}
    {state : Session × σ} (values : (requests stream).values = front ++ back)
    (answered : converse config database fd (beginning config db) front = (state, queued)) :
    output config database fd db stream =
      queued ++ ((converse config database fd state back).2 ++
        farewell (requests stream).ending) := by
  unfold output
  rw [values, converse_append, answered, List.append_assoc]

/-- What queues nothing keeps the queue. -/
theorem Emits.sameQueue (emits : Emits fd [] server after) :
    (after.client fd).enqueued = (server.client fd).enqueued := by
  rcases emits.part with ⟨front, isPrefix, equal⟩
  obtain rfl : front = [] := List.prefix_nil.mp isPrefix
  rw [equal, List.append_nil]

theorem Emits.wasOpen {added : Bytes} (emits : Emits fd added server after)
    (isOpen : (after.client fd).closed = false) : (server.client fd).closed = false := by
  cases closed : (server.client fd).closed with
  | false => rfl
  | true =>
      rw [emits.closed closed] at isOpen
      cases isOpen

theorem Halted.excused_of_emits {added : Bytes} (halted : Halted config database fd db server)
    (emits : Emits fd added server after) (closed : (after.client fd).closed = true) :
    after.Excused fd := by
  rcases emits.closes closed with before | excused
  · exact emits.excused (halted.excused before)
  · exact excused

theorem Halted.emits (halted : Halted config database fd db server)
    (emits : Emits fd [] server after) : Halted config database fd db after := by
  refine ⟨emits.config.trans halted.config_eq, emits.alone halted.alone, ?_, ?_,
    emits.ordered halted.ordered, ?_, ?_, halted.excused_of_emits emits⟩
  · rw [emits.dispatched, emits.received]
    exact halted.dispatched
  · rw [emits.sameQueue, emits.received]
    exact halted.enqueued
  · rw [emits.outcome, emits.dispatched, emits.received, emits.sameQueue]
    exact halted.answered
  · rw [emits.outcome, emits.dispatched, emits.received, emits.inBuf, emits.sameQueue]
    exact halted.hungUp

/-- What neither queues nor consumes anything. -/
theorem Progress.emits {pos : Nat} (progress : Progress config database fd db pos server)
    (emits : Emits fd [] server after) : Progress config database fd db pos after := by
  refine ⟨progress.halted.emits emits, ?_, ?_, ?_⟩
  · rw [emits.received, emits.inBuf, emits.dispatched]
    exact progress.parsed
  · intro isOpen
    rw [emits.dispatched, emits.session, (emits.queued isOpen).2, emits.sameQueue]
    exact progress.answered (emits.wasOpen isOpen)
  · rw [emits.outcome]
    exact progress.running

/-- The server once a command has been answered, before anything is delivered. -/
def answeredServer (config : NetConfig) (database : Database σ) (fd : Nat) (server : Server σ)
    (args : List Bytes) : Server σ :=
  let client := server.client fd
  let said := exchange config database fd (client.session, server.db) args
  { server with db := said.1.2 }.putClient fd
    { client with session := said.1.1, dispatched := client.dispatched ++ [args] }

theorem client_answeredServer (config : NetConfig) (database : Database σ) (fd : Nat)
    (server : Server σ) (args : List Bytes) :
    (answeredServer config database fd server args).client fd =
      { server.client fd with
        session := (exchange config database fd
          ((server.client fd).session, server.db) args).1.1
        dispatched := (server.client fd).dispatched ++ [args] } :=
  client_putClient_self _ _ _

theorem alone_answeredServer (alone : server.Alone fd) (args : List Bytes) :
    (answeredServer config database fd server args).Alone fd := by
  intro other different
  have same : (answeredServer config database fd server args).client other =
      server.client other :=
    (client_putClient _ _ _ _).trans (if_neg different)
  rw [same]
  exact alone other different

/-- A command delivers its messages before its reply is queued. -/
theorem command_emits (database : Database σ) (same : server.config = config) (alone : server.Alone fd)
    (args : List Bytes) :
    ∃ pushes, Emits fd pushes (answeredServer config database fd server args)
        (command database server fd args).1 ∧
      (exchange config database fd ((server.client fd).session, server.db) args).2 =
        pushes ++ (command database server fd args).2 := by
  subst same
  refine ⟨_, emits_deliveries database _ _ (alone_answeredServer alone args), ?_⟩
  rw [client_answeredServer]
  rfl

theorem requests_item {stream : Bytes} {used : Nat} {args : List Bytes}
    (found : Resp.parseRequest stream 0 = .complete used args) (goes : isQuit args = false) :
    requests stream = (requests (stream.drop used)).prepend [args] := by
  apply Reader.all_of_item
  · exact congrArg Resp.Parsed.asRead found
  · exact goes

/-- The next request of the input is dispatched; what has been queued is a beginning of
its answer, or nothing because the connection has been closed. -/
theorem Progress.dispatch {pos used : Nat} {args : List Bytes} {front : Bytes}
    (progress : Progress config database fd db pos server)
    (found : Resp.parseRequest ((server.client fd).inBuf.drop pos) 0 = .complete used args)
    (goes : isQuit args = false)
    (emits : Emits fd front (answeredServer config database fd server args) after)
    (isPrefix : front <+: (exchange config database fd
      ((server.client fd).session, server.db) args).2) :
    Halted config database fd db after ∧
      requests (after.client fd).received =
        (requests ((after.client fd).inBuf.drop (pos + used))).prepend
          (after.client fd).dispatched ∧
      (after.client fd).outcome = .running := by
  rcases progress with ⟨halted, parsed, answered, running⟩
  have here := client_answeredServer config database fd server args
  have received : (after.client fd).received = (server.client fd).received := by
    rw [emits.received, here]
  have dispatched : (after.client fd).dispatched = (server.client fd).dispatched ++ [args] := by
    rw [emits.dispatched, here]
  have inBuf : (after.client fd).inBuf = (server.client fd).inBuf := by
    rw [emits.inBuf, here]
  have stillRunning : (after.client fd).outcome = .running := by
    rw [emits.outcome, here]
    exact running
  have later : requests (server.client fd).received =
      (requests ((server.client fd).inBuf.drop (pos + used))).prepend
        ((server.client fd).dispatched ++ [args]) := by
    rw [parsed, requests_item found goes, Items.prepend_prepend, List.drop_drop]
  have values : (requests (server.client fd).received).values =
      (server.client fd).dispatched ++
        args :: (requests ((server.client fd).inBuf.drop (pos + used))).values := by
    rw [later]
    exact List.append_assoc _ _ _
  refine ⟨⟨?_, ?_, ?_, ?_, ?_, ?_, ?_, ?_⟩, ?_, stillRunning⟩
  · exact emits.config.trans halted.config_eq
  · exact emits.alone (alone_answeredServer halted.alone args)
  · rw [dispatched, received, later]
    exact List.prefix_append _ _
  · rw [received]
    cases closed : (server.client fd).closed with
    | true =>
        rw [emits.silent (by rw [here]; exact closed), here]
        exact halted.enqueued
    | false =>
        rcases emits.part with ⟨part, partOf, equal⟩
        rw [equal, here, output_of_converse values (answered closed), converse,
          List.append_assoc]
        apply (List.prefix_append_right_inj _).mpr
        exact (partOf.trans isPrefix).trans (List.prefix_append _ _)
  · apply emits.ordered
    rw [here]
    exact ⟨halted.ordered.within, halted.ordered.order⟩
  · intro finished
    cases stillRunning.symm.trans finished
  · intro finished
    cases stillRunning.symm.trans finished
  · intro closed
    rcases emits.closes closed with before | excused
    · rw [here] at before
      refine emits.excused ?_
      rcases halted.excused before with troubled | finished
      · exact .inl troubled
      · exact absurd running finished
    · exact excused
  · rw [received, inBuf, dispatched]
    exact later

/-- A command whose answer has been queued in full. -/
theorem Progress.next {pos used : Nat} {args : List Bytes}
    (progress : Progress config database fd db pos server)
    (found : Resp.parseRequest ((server.client fd).inBuf.drop pos) 0 = .complete used args)
    (goes : isQuit args = false)
    (emits : Emits fd (exchange config database fd
      ((server.client fd).session, server.db) args).2
      (answeredServer config database fd server args) after) :
    Progress config database fd db (pos + used) after := by
  rcases progress.dispatch found goes emits List.prefix_rfl with ⟨halted, parsed, running⟩
  refine ⟨halted, parsed, ?_, running⟩
  intro isOpen
  have here := client_answeredServer config database fd server args
  rcases emits.queued isOpen with ⟨queued, sameDb⟩
  have before : (server.client fd).closed = false := by
    have wasOpen := emits.wasOpen isOpen
    rw [here] at wasOpen
    exact wasOpen
  rw [emits.dispatched, emits.session, sameDb, queued, here]
  dsimp only
  rw [converse_append, progress.answered before]
  dsimp only
  rw [converse, converse]
  simp only [List.append_nil]
  rfl

/-- The parser at a position of the input. -/
theorem parseRequest_at {input : Bytes} {pos stop : Nat} {args : List Bytes}
    (found : Resp.parseRequest input pos = .complete stop args) :
    ∃ used, stop = pos + used ∧
      Resp.parseRequest (input.drop pos) 0 = .complete used args := by
  rw [Resp.parseRequest_shift] at found
  cases parsed : Resp.parseRequest (input.drop pos) 0 with
  | complete used others =>
      rw [parsed] at found
      cases found
      exact ⟨used, rfl, rfl⟩
  | needMore =>
      rw [parsed] at found
      cases found
  | malformed =>
      rw [parsed] at found
      cases found

variable (config database fd db) in
/-- Why the loop has ended, and what it leaves of the input; a loop that used its budget
has consumed a byte for each command at least. -/
def LoopLeft (input : Bytes) (least : Nat) (after : Server σ) (stop : Nat) : LoopEnd → Prop
  | .budget => Progress config database fd db stop after ∧
      (after.client fd).inBuf = input ∧ least ≤ stop
  | .waiting => Progress config database fd db stop after ∧
      Resp.parseRequest (after.client fd).inBuf stop = .needMore
  | .malformed => Progress config database fd db stop after ∧
      Resp.parseRequest (after.client fd).inBuf stop = .malformed
  | .quit => ∃ pos args, Progress config database fd db pos after ∧ isQuit args = true ∧
      Resp.parseRequest (after.client fd).inBuf pos = .complete stop args
  | .overflow => Halted config database fd db after ∧ after.Excused fd

theorem LoopLeft.weaken {input former : Bytes} {least lower stop : Nat} {ending : LoopEnd}
    (left : LoopLeft config database fd db input least after stop ending)
    (same : input = former) (less : lower ≤ least) :
    LoopLeft config database fd db former lower after stop ending := by
  subst same
  cases ending with
  | budget => exact ⟨left.1, left.2.1, less.trans left.2.2⟩
  | waiting => exact left
  | malformed => exact left
  | quit => exact left
  | overflow => exact left

theorem processLoop_left (budget pos : Nat) (server : Server σ)
    (progress : Progress config database fd db pos server) :
    LoopLeft config database fd db (server.client fd).inBuf (pos + budget)
      (processLoop database fd budget pos server).1
      (processLoop database fd budget pos server).2.1
      (processLoop database fd budget pos server).2.2 := by
  induction budget generalizing pos server with
  | zero => exact ⟨progress, rfl, le_rfl⟩
  | succ budget induction =>
      rw [processLoop_succ]
      cases found : Resp.parseRequest (server.client fd).inBuf pos with
      | needMore => exact ⟨progress, found⟩
      | malformed => exact ⟨progress, found⟩
      | complete stop args =>
          dsimp only
          cases goes : isQuit args with
          | true => exact ⟨pos, args, progress, goes, found⟩
          | false =>
              rw [if_neg (by decide)]
              rcases parseRequest_at found with ⟨used, rfl, read⟩
              have positive := (Resp.parseRequest_stop read).1
              have input := congrArg Client.inBuf
                (client_answeredServer config database fd server args)
              rcases command_emits database
                progress.halted.config_eq progress.halted.alone args with ⟨pushes, emits, said⟩
              rcases called : command database server fd args with ⟨answered, reply⟩
              rw [called] at emits said
              dsimp only
              by_cases silent : reply = []
              · rw [if_pos silent]
                have next : Progress config database fd db (pos + used) answered := by
                  apply progress.next read goes
                  rw [said, silent, List.append_nil]
                  exact emits
                exact (induction _ _ next).weaken (emits.inBuf.trans input) (by omega)
              · rw [if_neg silent]
                rcases emits_enqueueOutput answered fd reply with
                  ⟨accepted, queues, _⟩ | ⟨refused, refuses, reason⟩
                · rcases enqueued : answered.enqueueOutput fd reply with ⟨queued, success⟩
                  rw [enqueued] at accepted queues
                  obtain rfl : success = true := accepted
                  have both := emits.trans queues
                  rw [← said] at both
                  have next := progress.next read goes both
                  exact (induction _ _ next).weaken (both.inBuf.trans input) (by omega)
                · rcases enqueued : answered.enqueueOutput fd reply with ⟨queued, success⟩
                  rw [enqueued] at refused refuses reason
                  obtain rfl : success = false := refused
                  have both := emits.trans refuses
                  rw [List.append_nil] at both
                  have halted := (progress.dispatch read goes both
                    (said ▸ List.prefix_append _ _)).1
                  refine ⟨halted, ?_⟩
                  rcases reason with closed | excused
                  · exact halted.excused (refuses.closed closed)
                  · exact excused

/-! ## The end of a turn -/

theorem client_eraseInput (server : Server σ) (fd pos : Nat) :
    ∃ held, (server.eraseInput fd pos).client fd =
      { server.client fd with inBuf := (server.client fd).inBuf.drop pos, held } :=
  ⟨_, client_track_self _ _ _⟩

theorem alone_eraseInput (alone : server.Alone fd) (pos : Nat) :
    (server.eraseInput fd pos).Alone fd := by
  intro other different
  have same : (server.eraseInput fd pos).client other = server.client other :=
    client_track_other _ _ different
  rw [same]
  exact alone other different

theorem Halted.eraseInput (halted : Halted config database fd db server)
    (running : (server.client fd).outcome = .running) (pos : Nat) :
    Halted config database fd db (server.eraseInput fd pos) := by
  rcases client_eraseInput server fd pos with ⟨held, here⟩
  refine ⟨halted.config_eq, alone_eraseInput halted.alone pos, ?_, ?_, ?_, ?_, ?_, ?_⟩
  all_goals try unfold Excused
  all_goals rw [here]
  · exact halted.dispatched
  · exact halted.enqueued
  · exact ⟨halted.ordered.within, halted.ordered.order⟩
  · exact halted.answered
  · intro finished
    cases running.symm.trans finished
  · exact halted.excused

theorem Progress.eraseInput {pos : Nat} (progress : Progress config database fd db pos server) :
    Progress config database fd db 0 (server.eraseInput fd pos) := by
  rcases client_eraseInput server fd pos with ⟨held, here⟩
  refine ⟨progress.halted.eraseInput progress.running pos, ?_, ?_, ?_⟩
  all_goals rw [here]
  · exact progress.parsed
  · exact progress.answered
  · exact progress.running

variable (config database fd db) in
/-- The stream has ended, and everything before its end has been answered. -/
structure Ended (ending : Ending) (server : Server σ) : Prop where
  halted : Halted config database fd db server
  values : (requests (server.client fd).received).values = (server.client fd).dispatched
  ending_eq : (requests (server.client fd).received).ending = ending
  answered : (server.client fd).closed = false →
    converse config database fd (beginning config db) (server.client fd).dispatched =
      (((server.client fd).session, server.db), (server.client fd).enqueued)
  running : (server.client fd).outcome = .running

theorem Progress.ended {pos : Nat} {rest : Bytes} {ending : Ending}
    (progress : Progress config database fd db pos server)
    (ends : requests ((server.client fd).inBuf.drop pos) = { ending, rest }) :
    Ended config database fd db ending server := by
  have parsed := progress.parsed
  rw [ends] at parsed
  refine ⟨progress.halted, ?_, ?_, progress.answered, progress.running⟩
  · rw [parsed]
    exact List.append_nil _
  · rw [parsed]
    rfl

theorem Ended.eraseInput {ending : Ending} (ended : Ended config database fd db ending server)
    (pos : Nat) : Ended config database fd db ending (server.eraseInput fd pos) := by
  rcases client_eraseInput server fd pos with ⟨held, here⟩
  refine ⟨ended.halted.eraseInput ended.running pos, ?_, ?_, ?_, ?_⟩
  all_goals rw [here]
  · exact ended.values
  · exact ended.ending_eq
  · exact ended.answered
  · exact ended.running

/-- The last reply completes the output. -/
theorem Ended.finish {ending : Ending} (ended : Ended config database fd db ending server) :
    Halted config database fd db (server.finish fd (farewell ending)).1 ∧
      (server.finish fd (farewell ending)).1.Excused fd := by
  unfold Server.finish
  rcases emits_enqueueOutput server fd (farewell ending) with
    ⟨accepted, emits, isOpen⟩ | ⟨refused, refuses, reason⟩
  · rcases enqueued : server.enqueueOutput fd (farewell ending) with ⟨queued, success⟩
    rw [enqueued] at accepted emits isOpen
    obtain rfl : success = true := accepted
    have flushes := emits_flushOutput queued fd
    have sameQueue := flushes.sameQueue
    rw [(emits.queued isOpen).1] at sameQueue
    have both := emits.trans flushes
    have before := emits.wasOpen isOpen
    dsimp only
    generalize (queued.flushOutput fd).1 = flushed at both sameQueue
    have here := client_putClient_self flushed fd { flushed.client fd with outcome := .answered }
    have dispatched : (flushed.client fd).dispatched =
        (requests (flushed.client fd).received).values := by
      rw [both.dispatched, both.received, ended.values]
    have output : (flushed.client fd).enqueued =
        output config database fd db (flushed.client fd).received := by
      have whole : (requests (server.client fd).received).values =
          (server.client fd).dispatched ++ [] := by
        rw [ended.values, List.append_nil]
      rw [sameQueue, both.received, output_of_converse whole (ended.answered before),
        ended.ending_eq]
      rfl
    have excused : (flushed.putClient fd
        { flushed.client fd with outcome := .answered }).Excused fd := by
      refine .inr ?_
      rw [here]
      simp
    refine ⟨⟨both.config.trans ended.halted.config_eq, ?_, ?_, ?_, ?_, ?_, ?_, fun _ => excused⟩,
      excused⟩
    · intro other different
      rw [client_putClient, if_neg different, both.others other different]
      exact ended.halted.alone other different
    all_goals rw [here]
    · exact dispatched ▸ List.prefix_rfl
    · exact output ▸ List.prefix_rfl
    · have ordered := both.ordered ended.halted.ordered
      exact ⟨ordered.within, ordered.order⟩
    · exact fun _ => ⟨dispatched, output⟩
    · intro finished
      cases finished
  · rcases enqueued : server.enqueueOutput fd (farewell ending) with ⟨queued, success⟩
    rw [enqueued] at refused refuses reason
    obtain rfl : success = false := refused
    refine ⟨ended.halted.emits refuses, ?_⟩
    rcases reason with closed | excused
    · exact refuses.excused (ended.halted.excused closed)
    · exact excused

theorem requests_last {stream : Bytes} {used : Nat} {args : List Bytes}
    (found : Resp.parseRequest stream 0 = .complete used args) (quits : isQuit args = true) :
    requests stream = { ending := .last, rest := stream.drop used } := by
  apply Reader.all_of_last
  · exact congrArg Resp.Parsed.asRead found
  · exact quits

theorem requests_bad {stream : Bytes} (found : Resp.parseRequest stream 0 = .malformed) :
    requests stream = { ending := .bad, rest := stream } := by
  exact Reader.all_of_bad _ _ (congrArg Resp.Parsed.asRead found)

theorem requests_waiting {stream : Bytes} (found : Resp.parseRequest stream 0 = .needMore) :
    requests stream = { ending := .waiting, rest := stream } :=
  Reader.all_of_more _ _ (congrArg Resp.Parsed.asRead found)

theorem parseRequest_drop {input : Bytes} {pos : Nat} {outcome : Resp.Parsed}
    (found : Resp.parseRequest input pos = outcome) (undecided : ∀ stop args,
      outcome ≠ .complete stop args) : Resp.parseRequest (input.drop pos) 0 = outcome := by
  rw [Resp.parseRequest_shift] at found
  cases parsed : Resp.parseRequest (input.drop pos) 0 with
  | complete used args =>
      rw [parsed] at found
      exact absurd found.symm (undecided _ _)
  | needMore =>
      rw [parsed] at found
      exact found
  | malformed =>
      rw [parsed] at found
      exact found

theorem finish_drops (server : Server σ) (fd : Nat) (reply : Bytes) :
    (server.finish fd reply).2 = .drop := by
  unfold Server.finish
  rcases server.enqueueOutput fd reply with ⟨queued, accepted⟩
  cases accepted <;> rfl

/-- A turn: the connection is to be closed, or it goes on and asks for another turn
unless no complete request is left. -/
theorem processBuffered_left (progress : Progress config database fd db 0 server) :
    Halted config database fd db (processBuffered database server fd).1 ∧
      ((processBuffered database server fd).2 = .drop →
        (processBuffered database server fd).1.Excused fd) ∧
      ((processBuffered database server fd).2 ≠ .drop →
        Progress config database fd db 0 (processBuffered database server fd).1 ∧
          ((processBuffered database server fd).2 = .done →
            Resp.parseRequest ((processBuffered database server fd).1.client fd).inBuf 0 =
              .needMore) ∧
          ((processBuffered database server fd).2 = .more →
            ((processBuffered database server fd).1.client fd).inBuf.length <
              (server.client fd).inBuf.length)) := by
  have left := processLoop_left maxCommandsPerTurn 0 server progress
  rw [processBuffered_eq]
  rcases looped : processLoop database fd maxCommandsPerTurn 0 server with
    ⟨processed, pos, ending⟩
  rw [looped] at left
  cases ending with
  | overflow => exact ⟨left.1, fun _ => left.2, fun goes => absurd rfl goes⟩
  | quit =>
      rcases left with ⟨start, args, before, quits, found⟩
      rcases parseRequest_at found with ⟨used, _, read⟩
      have ended := (before.ended (requests_last read quits)).eraseInput pos
      exact ⟨ended.finish.1, fun _ => ended.finish.2,
        fun goes => absurd (finish_drops _ _ _) goes⟩
  | malformed =>
      rcases left with ⟨before, found⟩
      have read := parseRequest_drop found (by simp)
      have ended := (before.ended (requests_bad read)).eraseInput pos
      exact ⟨ended.finish.1, fun _ => ended.finish.2,
        fun goes => absurd (finish_drops _ _ _) goes⟩
  | waiting =>
      rcases left with ⟨before, found⟩
      have read := parseRequest_drop found (by simp)
      rcases client_eraseInput processed fd pos with ⟨held, here⟩
      have input : ((processed.eraseInput fd pos).client fd).inBuf =
          (processed.client fd).inBuf.drop pos := by
        rw [here]
      have flushes := emits_flushOutput (processed.eraseInput fd pos) fd
      have excused := excused_flushOutput (processed.eraseInput fd pos) fd
      have after := before.eraseInput.emits flushes
      dsimp only
      rcases flushing : (processed.eraseInput fd pos).flushOutput fd with ⟨flushed, result⟩
      rw [flushing] at flushes after excused
      have nothing : Resp.parseRequest (flushed.client fd).inBuf 0 = .needMore := by
        rw [flushes.inBuf, input]
        exact read
      cases result with
      | dead => exact ⟨after.halted, fun _ => excused rfl, fun goes => absurd rfl goes⟩
      | complete =>
          exact ⟨after.halted, by rintro ⟨⟩, fun _ => ⟨after, fun _ => nothing, by rintro ⟨⟩⟩⟩
      | pending =>
          exact ⟨after.halted, by rintro ⟨⟩, fun _ => ⟨after, fun _ => nothing, by rintro ⟨⟩⟩⟩
  | budget =>
      rcases left with ⟨before, input, consumed⟩
      rcases client_eraseInput processed fd pos with ⟨held, here⟩
      have flushes := emits_flushOutput (processed.eraseInput fd pos) fd
      have after := before.eraseInput.emits flushes
      have excused := excused_flushOutput (processed.eraseInput fd pos) fd
      dsimp only
      rcases flushing : (processed.eraseInput fd pos).flushOutput fd with ⟨flushed, result⟩
      rw [flushing] at flushes after excused
      have erased : (flushed.client fd).inBuf = (server.client fd).inBuf.drop pos := by
        rw [flushes.inBuf, here, ← input]
      have shorter : (if LoopEnd.budget = .budget ∧ (flushed.client fd).inBuf ≠ [] then Turn.more
          else .done) = .more →
          (flushed.client fd).inBuf.length < (server.client fd).inBuf.length := by
        intro more
        by_cases left : LoopEnd.budget = LoopEnd.budget ∧ (flushed.client fd).inBuf ≠ []
        · rw [if_pos left] at more
          have rest := List.length_pos_iff.mpr left.2
          rw [erased, List.length_drop] at rest ⊢
          change 0 + 8192 ≤ pos at consumed
          omega
        · rw [if_neg left] at more
          cases more
      have nothing : (if LoopEnd.budget = .budget ∧ (flushed.client fd).inBuf ≠ [] then Turn.more
          else .done) = .done → Resp.parseRequest (flushed.client fd).inBuf 0 = .needMore := by
        intro done
        by_cases unread : LoopEnd.budget = LoopEnd.budget ∧ (flushed.client fd).inBuf ≠ []
        · rw [if_pos unread] at done
          cases done
        · rw [if_neg unread] at done
          have none : (flushed.client fd).inBuf = [] := by simpa using unread
          rw [none]
          rfl
      have goesOn : (if LoopEnd.budget = .budget ∧ (flushed.client fd).inBuf ≠ [] then Turn.more
          else .done) ≠ .drop := by
        by_cases unread : LoopEnd.budget = LoopEnd.budget ∧ (flushed.client fd).inBuf ≠ []
        · rw [if_pos unread]
          rintro ⟨⟩
        · rw [if_neg unread]
          rintro ⟨⟩
      cases result with
      | dead => exact ⟨after.halted, fun _ => excused rfl, fun goes => absurd rfl goes⟩
      | complete =>
          exact ⟨after.halted, fun drop => absurd drop goesOn, fun _ => ⟨after, nothing, shorter⟩⟩
      | pending =>
          exact ⟨after.halted, fun drop => absurd drop goesOn, fun _ => ⟨after, nothing, shorter⟩⟩

variable (config database fd db) in
/-- Between two events. -/
structure Between (server : Server σ) : Prop where
  halted : Halted config database fd db server
  progress : (server.client fd).closed = false → Progress config database fd db 0 server

theorem Halted.closes (halted : Halted config database fd db server)
    (excused : server.Excused fd) :
    Between config database fd db (scheduleClose database server fd) := by
  rcases emits_scheduleClose database server fd [] (.inr excused) with ⟨emits, closed⟩
  refine ⟨halted.emits emits, fun isOpen => ?_⟩
  rw [closed] at isOpen
  cases isOpen

theorem Progress.between (progress : Progress config database fd db 0 server) :
    Between config database fd db server :=
  ⟨progress.halted, fun _ => progress⟩

/-- No request is left to be dispatched. -/
def Settled (fd : Nat) (server : Server σ) : Prop :=
  (server.client fd).closed = true ∨
    Resp.parseRequest (server.client fd).inBuf 0 = .needMore

theorem serve_left (progress : Progress config database fd db 0 server) :
    Between config database fd db (serve database server fd).1 ∧
      ((serve database server fd).1.Settled fd ∨
        ((serve database server fd).1.client fd).inBuf.length <
          (server.client fd).inBuf.length) := by
  rcases processBuffered_left progress with ⟨halted, drops, goes⟩
  unfold serve
  rcases processed : processBuffered database server fd with ⟨served, turn⟩
  rw [processed] at halted drops goes
  cases turn with
  | drop =>
      have excused := drops rfl
      exact ⟨halted.closes excused,
        .inl (.inl (emits_scheduleClose database served fd [] (.inr excused)).2)⟩
  | done =>
      rcases goes (by simp) with ⟨after, nothing, _⟩
      exact ⟨after.between, .inl (.inr (nothing rfl))⟩
  | more =>
      rcases goes (by simp) with ⟨after, _, shorter⟩
      exact ⟨after.between, .inr (shorter rfl)⟩

/-- A turn without a complete request dispatches nothing. -/
theorem processBuffered_waiting
    (waiting : Resp.parseRequest (server.client fd).inBuf 0 = .needMore) :
    (processBuffered database server fd).2 ≠ .more := by
  have looped : processLoop database fd maxCommandsPerTurn 0 server = (server, 0, .waiting) := by
    change processLoop database fd (8191 + 1) 0 server = _
    rw [processLoop_succ, waiting]
  rw [processBuffered_eq, looped]
  dsimp only
  rcases (server.eraseInput fd 0).flushOutput fd with ⟨flushed, result⟩
  cases result with
  | dead => rintro ⟨⟩
  | complete => rintro ⟨⟩
  | pending => rintro ⟨⟩

theorem serve_waiting (progress : Progress config database fd db 0 server)
    (waiting : Resp.parseRequest (server.client fd).inBuf 0 = .needMore) :
    (serve database server fd).1.Settled fd := by
  have notMore : (processBuffered database server fd).2 ≠ .more := processBuffered_waiting waiting
  rcases processBuffered_left progress with ⟨_, drops, goes⟩
  unfold serve
  rcases processed : processBuffered database server fd with ⟨served, turn⟩
  rw [processed] at drops goes notMore
  cases turn with
  | drop => exact .inl (emits_scheduleClose database served fd [] (.inr (drops rfl))).2
  | done => exact .inr ((goes (by simp)).2.1 rfl)
  | more => exact absurd rfl notMore

/-! ## Reading -/

/-- What is read comes after the input that is still there. -/
theorem Progress.received (progress : Progress config database fd db 0 server)
    (isOpen : (server.client fd).closed = false) {taken : Bytes} {held : Nat}
    (others : ∀ other, other ≠ fd → after.client other = server.client other)
    (here : after.client fd =
      { server.client fd with
        inBuf := (server.client fd).inBuf ++ taken
        received := (server.client fd).received ++ taken
        held })
    (configEq : after.config = server.config) (dbEq : after.db = server.db)
    (troubled : after.troubled = server.troubled) :
    Progress config database fd db 0 after := by
  have parsed : requests ((server.client fd).received ++ taken) =
      (requests ((server.client fd).inBuf ++ taken)).prepend (server.client fd).dispatched := by
    have before := progress.parsed
    rw [List.drop_zero] at before
    unfold requests at before ⊢
    rw [Reader.all_append, before, Items.prepend_resume, ← Reader.all_append]
  have answered := progress.answered isOpen
  have values : (requests ((server.client fd).received ++ taken)).values =
      (server.client fd).dispatched ++
        (requests ((server.client fd).inBuf ++ taken)).values := by
    rw [parsed]
    rfl
  refine ⟨⟨configEq.trans progress.halted.config_eq, ?_, ?_, ?_, ?_, ?_, ?_, ?_⟩, ?_, ?_, ?_⟩
  · intro other different
    rw [others other different]
    exact progress.halted.alone other different
  all_goals try unfold Excused
  all_goals rw [here]
  · dsimp only
    rw [values]
    exact List.prefix_append _ _
  · dsimp only
    rw [output_of_converse values answered]
    exact List.prefix_append _ _
  · exact ⟨progress.halted.ordered.within, progress.halted.ordered.order⟩
  · intro finished
    cases progress.running.symm.trans finished
  · intro finished
    cases progress.running.symm.trans finished
  · rw [troubled]
    exact progress.halted.excused
  · exact parsed
  · intro _
    rw [dbEq]
    exact answered
  · exact progress.running

/-- A connection whose stream has ended keeps its input. -/
theorem Progress.hangUp (progress : Progress config database fd db 0 server)
    (isOpen : (server.client fd).closed = false) :
    Halted config database fd db (server.hangUp fd) := by
  have here := client_putClient_self server fd { server.client fd with outcome := .hungUp }
  have parsed := progress.parsed
  rw [List.drop_zero] at parsed
  constructor
  · exact progress.halted.config_eq
  · intro other different
    rw [Server.hangUp, client_putClient, if_neg different]
    exact progress.halted.alone other different
  all_goals rw [Server.hangUp]
  all_goals try unfold Excused
  all_goals rw [here]
  · exact progress.halted.dispatched
  · exact progress.halted.enqueued
  · exact ⟨progress.halted.ordered.within, progress.halted.ordered.order⟩
  · intro finished
    cases finished
  · intro _
    refine ⟨parsed, ?_⟩
    rw [progress.answered isOpen]
  · intro _
    exact .inr (by simp)

theorem excused_hangUp (server : Server σ) (fd : Nat) : (server.hangUp fd).Excused fd := by
  refine .inr ?_
  rw [Server.hangUp, client_putClient_self]
  simp

/-- What is read is kept, and a connection that is to be closed has a reason. -/
theorem Progress.drainRead (progress : Progress config database fd db 0 server)
    (isOpen : (server.client fd).closed = false) (reads : List ReadCall) :
    Halted config database fd db (server.drainRead fd reads).1 ∧
      ((server.drainRead fd reads).2 = true →
        Progress config database fd db 0 (server.drainRead fd reads).1) ∧
      ((server.drainRead fd reads).2 = false → (server.drainRead fd reads).1.Excused fd) := by
  have goesOn : ∀ {later : Server σ}, Progress config database fd db 0 later →
      Halted config database fd db later ∧
        (true = true → Progress config database fd db 0 later) ∧
        (true = false → later.Excused fd) :=
    fun reading => ⟨reading.halted, fun _ => reading, fun wrong => nomatch wrong⟩
  have stops : ∀ {later : Server σ}, Halted config database fd db later → later.Excused fd →
      Halted config database fd db later ∧
        (false = true → Progress config database fd db 0 later) ∧
        (false = false → later.Excused fd) :=
    fun halted excused => ⟨halted, fun wrong => (nomatch wrong), fun _ => excused⟩
  induction reads generalizing server with
  | nil => exact goesOn progress
  | cons call rest induction =>
      have hangsUp := stops (progress.hangUp isOpen) (excused_hangUp server fd)
      unfold Server.drainRead
      dsimp only
      by_cases full : (server.client fd).inputCap ≤ (server.client fd).inBuf.length
      · rw [if_pos full]
        exact goesOn progress
      · rw [if_neg full]
        cases call with
        | interrupted => exact induction progress isOpen
        | again => exact goesOn progress
        | failed => exact hangsUp
        | got bytes =>
            dsimp only
            generalize bytes.take readChunk = taken
            by_cases nothing : taken = []
            · rw [if_pos nothing]
              exact hangsUp
            · rw [if_neg nothing]
              have here := client_track_self server fd
                { server.client fd with
                  inBuf := (server.client fd).inBuf ++ taken
                  received := (server.client fd).received ++ taken }
              have others : ∀ other, other ≠ fd → ((server.putClient fd
                  { server.client fd with
                    inBuf := (server.client fd).inBuf ++ taken
                    received := (server.client fd).received ++ taken }).track fd).client other =
                  server.client other := fun other different => client_track_other _ _ different
              have read := progress.received isOpen others here rfl rfl rfl
              generalize (server.putClient fd
                { server.client fd with
                  inBuf := (server.client fd).inBuf ++ taken
                  received := (server.client fd).received ++ taken }).track fd = grown
                at here read
              by_cases exceeds : grown.overBufferBudget 0 = true
              · rw [if_pos exceeds]
                exact stops (read.emits (emits_trouble grown fd)).halted (.inl rfl)
              · rw [if_neg exceeds]
                by_cases short : taken.length < readChunk
                · rw [if_pos short]
                  exact goesOn read
                · rw [if_neg short]
                  apply induction read
                  rw [here]
                  exact isOpen

/-! ## Every sequence of events -/

theorem Progress.sends {pos : Nat} (progress : Progress config database fd db pos server)
    (sends : List Send) : Progress config database fd db pos { server with sends } := by
  rcases progress with ⟨⟨same, alone, dispatched, enqueued, ordered, answered, hungUp, excused⟩,
    parsed, said, running⟩
  exact ⟨⟨same, alone, dispatched, enqueued, ordered, answered, hungUp, excused⟩, parsed, said,
    running⟩

theorem between_clientEvent (progress : Progress config database fd db 0 server)
    (isOpen : (server.client fd).closed = false) (event : ClientEvent) :
    Between config database fd db (server.clientEvent database fd event) := by
  cases event with
  | readable reads sends =>
      rcases (progress.sends sends).drainRead isOpen reads with ⟨halted, read, excused⟩
      unfold clientEvent
      dsimp only
      rcases draining : ({ server with sends } : Server σ).drainRead fd reads with
        ⟨drained, success⟩
      rw [draining] at halted read excused
      cases success with
      | false => exact halted.closes (excused rfl)
      | true =>
          have served := (serve_left (read rfl)).1
          dsimp only
          rcases serving : serve database drained fd with ⟨result, more⟩
          rw [serving] at served
          cases more with
          | true => exact served
          | false =>
              dsimp only
              by_cases full : (result.client fd).inputCap ≤ List.length (result.client fd).inBuf
              · rw [if_pos full]
                exact (served.halted.emits (emits_trouble _ fd)).closes (.inl rfl)
              · rw [if_neg full]
                exact served
  | writable sends =>
      have flushed := (progress.sends sends).emits (emits_flushOutput _ fd)
      have excused := excused_flushOutput { server with sends } fd
      unfold clientEvent
      dsimp only
      rcases flushing : ({ server with sends } : Server σ).flushOutput fd with ⟨sent, result⟩
      rw [flushing] at flushed excused
      cases result with
      | dead => exact flushed.halted.closes (excused rfl)
      | complete => exact flushed.between
      | pending => exact flushed.between
  | pump sends =>
      unfold clientEvent
      dsimp only
      by_cases empty : (server.client fd).inBuf = []
      · rw [if_pos empty]
        exact progress.between
      · rw [if_neg empty]
        exact (serve_left (progress.sends sends)).1
  | timeout =>
      unfold clientEvent
      dsimp only
      by_cases authenticated : (server.client fd).session.authenticated = true
      · rw [if_pos authenticated]
        exact progress.between
      · rw [if_neg authenticated]
        exact (progress.halted.emits (emits_trouble _ fd)).closes (.inl rfl)

theorem between_run (between : Between config database fd db server)
    (events : List ClientEvent) :
    Between config database fd db (run database server (events.map (.client fd))) := by
  induction events generalizing server with
  | nil => exact between
  | cons event rest induction =>
      apply induction
      unfold step
      dsimp only
      cases closed : (server.client fd).closed with
      | true => exact between
      | false => exact between_clientEvent (between.progress closed) closed event

/-- A turn settles the connection or takes from its input. -/
theorem pump_left (between : Between config database fd db server) (sends : List Send) :
    (step database server (.client fd (.pump sends))).Settled fd ∨
      (¬server.Settled fd ∧ ((step database server (.client fd (.pump sends))).client
        fd).inBuf.length < (server.client fd).inBuf.length) := by
  unfold step
  dsimp only
  cases closed : (server.client fd).closed with
  | true => exact .inl (.inl closed)
  | false =>
      rw [if_neg (by decide)]
      unfold clientEvent
      dsimp only
      by_cases empty : (server.client fd).inBuf = []
      · rw [if_pos empty]
        refine .inl (.inr ?_)
        rw [empty]
        rfl
      · rw [if_neg empty]
        have progress := (between.progress closed).sends sends
        by_cases waiting : Resp.parseRequest (server.client fd).inBuf 0 = .needMore
        · exact .inl (serve_waiting progress waiting)
        · refine (serve_left progress).2.imp id fun shorter => ⟨?_, shorter⟩
          rintro (already | settled)
          · rw [closed] at already
            cases already
          · exact waiting settled

/-- As many turns as there are bytes are enough. -/
theorem settled_pumps (between : Between config database fd db server)
    (turns : List (List Send))
    (enough : server.Settled fd ∨ (server.client fd).inBuf.length ≤ turns.length) :
    (run database server (turns.map fun sends => .client fd (.pump sends))).Settled fd := by
  induction turns generalizing server with
  | nil =>
      rcases enough with settled | nothing
      · exact settled
      · have empty := List.eq_nil_of_length_eq_zero (Nat.le_zero.mp nothing)
        refine .inr ?_
        change Resp.parseRequest (server.client fd).inBuf 0 = .needMore
        rw [empty]
        rfl
  | cons sends rest induction =>
      apply induction (between_run between [.pump sends])
      rcases pump_left between sends with settled | ⟨unsettled, shorter⟩
      · exact .inl settled
      · have length := enough.resolve_left unsettled
        rw [List.length_cons] at length
        exact .inr (Nat.le_of_lt_succ (shorter.trans_le length))

theorem between_accept (config : NetConfig) (database : Database σ) (fd : Nat) (db : σ) :
    Between config database fd db (({ config, db } : Server σ).accept fd) := by
  unfold Server.accept
  rw [if_neg (show ¬(!(({ config, db } : Server σ).client fd).closed) = true by rintro ⟨⟩)]
  split
  · refine ⟨⟨rfl, fun _ _ => rfl, List.nil_prefix, List.nil_prefix, ⟨Nat.zero_le _, rfl⟩,
      by rintro ⟨⟩, by rintro ⟨⟩, fun _ => .inl rfl⟩, by rintro ⟨⟩⟩
  · have here := client_putClient_self ({ config, db } : Server σ) fd (Client.connect config fd)
    apply Progress.between
    refine ⟨⟨rfl, ?_, ?_, ?_, ?_, ?_, ?_, ?_⟩, ?_, ?_, ?_⟩
    case refine_1 =>
      intro other different
      exact (congrArg Client.closed (client_putClient _ _ _ _)).trans (by rw [if_neg different]; rfl)
    all_goals try unfold Excused
    all_goals rw [here]
    · exact List.nil_prefix
    · exact List.nil_prefix
    · exact ⟨Nat.zero_le _, rfl⟩
    · rintro ⟨⟩
    · rintro ⟨⟩
    · rintro ⟨⟩
    · rfl
    · exact fun _ => rfl
    · rfl

/-- Where the stream has ended nothing that was read has to be left behind. -/
def LeavesNothing (fd : Nat) (server : Server σ) : Prop :=
  (server.client fd).outcome = .hungUp →
    Resp.parseRequest (server.client fd).inBuf 0 = .needMore

theorem requests_nothing {stream : Bytes} (none : (requests stream).values = [])
    (silent : farewell (requests stream).ending = []) :
    Resp.parseRequest stream 0 = .needMore := by
  cases found : Resp.parseRequest stream 0 with
  | needMore => rfl
  | malformed =>
      rw [requests_bad found] at silent
      cases silent
  | complete used args =>
      cases quits : isQuit args with
      | true =>
          rw [requests_last found quits] at silent
          cases silent
      | false =>
          rw [requests_item found quits] at none
          cases none

/-- What has been dispatched and queued once the connection is settled. -/
theorem Between.whole_iff (between : Between config database fd db server)
    (settled : server.Settled fd) (untroubled : server.troubled = false) :
    ((server.client fd).dispatched = (requests (server.client fd).received).values ∧
      (server.client fd).enqueued =
        output config database fd db (server.client fd).received) ↔ server.LeavesNothing fd := by
  cases closed : (server.client fd).closed with
  | true =>
      cases outcome : (server.client fd).outcome with
      | running =>
          rcases between.halted.excused closed with troubled | finished
          · cases untroubled.symm.trans troubled
          · exact absurd outcome finished
      | answered =>
          apply iff_of_true (between.halted.answered outcome)
          intro finished
          cases outcome.symm.trans finished
      | hungUp =>
          rcases between.halted.hungUp outcome with ⟨parsed, said⟩
          have values : (requests (server.client fd).received).values =
              (server.client fd).dispatched ++ (requests (server.client fd).inBuf).values := by
            rw [parsed]
            rfl
          have spoken : converse config database fd (beginning config db)
              (server.client fd).dispatched =
              ((converse config database fd (beginning config db)
                (server.client fd).dispatched).1, (server.client fd).enqueued) :=
            Prod.ext rfl said
          have whole := output_of_converse values spoken
          have ending : (requests (server.client fd).received).ending =
              (requests (server.client fd).inBuf).ending := by
            rw [parsed]
            rfl
          constructor
          · intro done _
            rw [values] at done
            have none := List.self_eq_append_right.mp done.1
            rw [whole, none, ending] at done
            exact requests_nothing none (List.self_eq_append_right.mp done.2)
          · intro nothing
            have waiting := requests_waiting (nothing outcome)
            rw [whole, values, ending, waiting]
            exact ⟨(List.append_nil _).symm, (List.append_nil _).symm⟩
  | false =>
      have progress := between.progress closed
      have waiting : Resp.parseRequest (server.client fd).inBuf 0 = .needMore := by
        apply settled.resolve_left
        rw [closed]
        decide
      have parsed := progress.parsed
      rw [List.drop_zero, requests_waiting waiting] at parsed
      have values : (requests (server.client fd).received).values =
          (server.client fd).dispatched ++ [] := by
        rw [parsed]
        rfl
      apply iff_of_true
      · refine ⟨by rw [values, List.append_nil], ?_⟩
        rw [output_of_converse values (progress.answered closed), parsed]
        exact (List.append_nil _).symm
      · exact fun _ => waiting

end Conversation

/-! ## The end of the stream -/

/-- What has been read, and not parsed, when the peer ends its stream or a read fails. -/
def cutOff (cap : Nat) (buffered : Bytes) : List ReadCall → Option Bytes
  | [] => none
  | call :: rest =>
      if cap ≤ buffered.length then none
      else
        match call with
        | .got bytes =>
            if bytes.take readChunk = [] then some buffered
            else if (bytes.take readChunk).length < readChunk then none
            else cutOff cap (buffered ++ bytes.take readChunk) rest
        | .interrupted => cutOff cap buffered rest
        | .again => none
        | .failed => some buffered

/-- If the stream ends in this event, what is in the buffer then is no complete request. -/
def Uncut (fd : Nat) (server : Server σ) : ClientEvent → Prop
  | .readable reads _ =>
      (server.client fd).closed = false →
        ∀ left, cutOff (server.client fd).inputCap (server.client fd).inBuf reads = some left →
          Resp.parseRequest left 0 = .needMore
  | _ => True

/-- Reading comes to the end of the stream where it is cut off. -/
theorem cutOff_drainRead (server : Server σ) (fd : Nat) (reads : List ReadCall)
    (running : (server.client fd).outcome = .running)
    (untroubled : (server.drainRead fd reads).1.troubled = false) :
    match cutOff (server.client fd).inputCap (server.client fd).inBuf reads with
    | some left => (server.drainRead fd reads).2 = false ∧
        ((server.drainRead fd reads).1.client fd).outcome = .hungUp ∧
        ((server.drainRead fd reads).1.client fd).inBuf = left
    | none => (server.drainRead fd reads).2 = true ∧
        ((server.drainRead fd reads).1.client fd).outcome = .running := by
  have hangsUp : ((server.hangUp fd).client fd).outcome = .hungUp ∧
      ((server.hangUp fd).client fd).inBuf = (server.client fd).inBuf := by
    rw [hangUp, client_putClient_self]
    exact ⟨rfl, rfl⟩
  induction reads generalizing server with
  | nil => exact ⟨rfl, running⟩
  | cons call rest induction =>
      revert untroubled
      unfold cutOff drainRead
      dsimp only
      by_cases full : (server.client fd).inputCap ≤ (server.client fd).inBuf.length
      · rw [if_pos full, if_pos full]
        exact fun _ => ⟨rfl, running⟩
      · rw [if_neg full, if_neg full]
        cases call with
        | interrupted => exact fun untroubled => induction server running untroubled hangsUp
        | again => exact fun _ => ⟨rfl, running⟩
        | failed => exact fun _ => ⟨rfl, hangsUp⟩
        | got bytes =>
            dsimp only
            generalize bytes.take readChunk = taken
            by_cases nothing : taken = []
            · rw [if_pos nothing, if_pos nothing]
              exact fun _ => ⟨rfl, hangsUp⟩
            · rw [if_neg nothing, if_neg nothing]
              have here := client_track_self server fd
                { server.client fd with
                  inBuf := (server.client fd).inBuf ++ taken
                  received := (server.client fd).received ++ taken }
              generalize (server.putClient fd
                { server.client fd with
                  inBuf := (server.client fd).inBuf ++ taken
                  received := (server.client fd).received ++ taken }).track fd = grown at here
              have still : (grown.client fd).outcome = .running := by
                rw [here]
                exact running
              by_cases exceeds : grown.overBufferBudget 0 = true
              · rw [if_pos exceeds]
                intro untroubled
                cases untroubled
              · rw [if_neg exceeds]
                by_cases short : taken.length < readChunk
                · rw [if_pos short, if_pos short]
                  exact fun _ => ⟨rfl, still⟩
                · rw [if_neg short, if_neg short]
                  intro untroubled
                  have later := induction grown still untroubled (by
                    rw [hangUp, client_putClient_self]
                    exact ⟨rfl, rfl⟩)
                  rw [here] at later
                  exact later

/-! ## Turns do not read -/

/-- Nothing is received, and no stream ends. -/
structure Unread (server after : Server σ) : Prop where
  troubled : server.troubled = true → after.troubled = true
  hungUp : ∀ fd, (after.client fd).outcome = .hungUp → (server.client fd).outcome = .hungUp
  received : ∀ fd, (after.client fd).received = (server.client fd).received

theorem Unread.trans {third : Server σ} (left : Unread server after)
    (right : Unread after third) : Unread server third where
  troubled := right.troubled ∘ left.troubled
  hungUp fd := left.hungUp fd ∘ right.hungUp fd
  received fd := (right.received fd).trans (left.received fd)

theorem Quiet.unread (quiet : Quiet server after) : Unread server after :=
  ⟨quiet.troubled, fun fd => (quiet.alike fd).hungUp, fun fd => (quiet.alike fd).received⟩

theorem unread_command (database : Database σ) (server : Server σ) (fd : Nat)
    (args : List Bytes) : Unread server (command database server fd args).1 := by
  unfold command
  dsimp only
  refine Unread.trans ?_ (quiet_deliveries database _ _).unread
  refine ⟨id, fun other => ?_, fun other => ?_⟩
  · rw [client_putClient]
    by_cases same : other = fd
    · rw [if_pos same, same]
      exact id
    · rw [if_neg same]
      exact id
  · rw [client_putClient]
    by_cases same : other = fd
    · rw [if_pos same, same]
    · rw [if_neg same]
      rfl

theorem unread_serve (database : Database σ) (server : Server σ) (fd : Nat) :
    Unread server (serve database server fd).1 :=
  frames_serve ((quiet_frames fd).mono .trans Quiet.unread)
    (fun server args => unread_command database server fd args)
    (fun server => (quiet_scheduleClose database server fd).unread) server

theorem unread_sends (server : Server σ) (sends : List Send) :
    Unread server { server with sends } :=
  ⟨id, fun _ => id, fun _ => rfl⟩

/-- Every event but the one that reads. -/
theorem unread_clientEvent (database : Database σ) (server : Server σ) (fd : Nat)
    {event : ClientEvent} (reads : ∀ reads sends, event ≠ .readable reads sends) :
    Unread server (server.clientEvent database fd event) := by
  cases event with
  | readable calls sends => exact absurd rfl (reads calls sends)
  | writable sends =>
      have flush := (unread_sends server sends).trans
        (emits_flushOutput { server with sends } fd).quiet.unread
      unfold clientEvent
      dsimp only
      rcases flushing : ({ server with sends } : Server σ).flushOutput fd with ⟨flushed, result⟩
      rw [flushing] at flush
      cases result with
      | dead => exact flush.trans (quiet_scheduleClose database flushed fd).unread
      | complete => exact flush
      | pending => exact flush
  | pump sends =>
      unfold clientEvent
      dsimp only
      by_cases empty : (server.client fd).inBuf = []
      · rw [if_pos empty]
        exact Quiet.refl.unread
      · rw [if_neg empty]
        exact (unread_sends server sends).trans (unread_serve database _ fd)
  | timeout =>
      unfold clientEvent
      dsimp only
      by_cases known : (server.client fd).session.authenticated = true
      · rw [if_pos known]
        exact Quiet.refl.unread
      · rw [if_neg known]
        exact (emits_trouble server fd).quiet.unread.trans
          (quiet_scheduleClose database _ fd).unread

theorem received_pumps (database : Database σ) (server : Server σ) (fd : Nat)
    (turns : List (List Send)) :
    ((run database server (turns.map fun sends => .client fd (.pump sends))).client fd).received =
      (server.client fd).received := by
  induction turns generalizing server with
  | nil => rfl
  | cons sends rest induction =>
      refine (induction _).trans ?_
      unfold step
      dsimp only
      by_cases closed : (server.client fd).closed = true
      · rw [if_pos closed]
      · rw [if_neg closed]
        exact (unread_clientEvent database server fd (by simp)).received fd

/-! ## Along a stream -/

/-- An event of the connection. -/
def streamStep (database : Database σ) (fd : Nat) (server : Server σ) (event : ClientEvent) :
    Server σ :=
  step database server (.client fd event)

theorem troubled_drainRead (server : Server σ) (fd : Nat) (reads : List ReadCall)
    (troubled : server.troubled = true) : (server.drainRead fd reads).1.troubled = true :=
  @frames_drainRead σ fd (fun server after => server.troubled = true → after.troubled = true)
    (fun _ => id) (fun left right => right ∘ left) (fun _ => id) (fun _ _ => rfl) (fun _ _ => id)
    server reads troubled

/-- What has been read is served, and a buffer that is full is too much. -/
theorem unread_served (database : Database σ) (server : Server σ) (fd : Nat) :
    Unread server (match serve database server fd with
      | (served, true) => served
      | (served, false) =>
          if (served.client fd).inputCap ≤ (served.client fd).inBuf.length then
            scheduleClose database served.trouble fd
          else served) := by
  have serves := unread_serve database server fd
  rcases serving : serve database server fd with ⟨served, more⟩
  rw [serving] at serves
  cases more with
  | true => exact serves
  | false =>
      dsimp only
      by_cases full : (served.client fd).inputCap ≤ (served.client fd).inBuf.length
      · rw [if_pos full]
        exact serves.trans ((emits_trouble served fd).quiet.unread.trans
          (quiet_scheduleClose database _ fd).unread)
      · rw [if_neg full]
        exact serves

theorem troubled_streamStep (database : Database σ) (server : Server σ) (fd : Nat)
    (event : ClientEvent) (troubled : server.troubled = true) :
    (streamStep database fd server event).troubled = true := by
  unfold streamStep step
  dsimp only
  by_cases closed : (server.client fd).closed = true
  · rw [if_pos closed]
    exact troubled
  · rw [if_neg closed]
    cases event with
    | readable reads sends =>
        have drained := troubled_drainRead { server with sends } fd reads troubled
        unfold clientEvent
        dsimp only
        rcases draining : ({ server with sends } : Server σ).drainRead fd reads with
          ⟨read, success⟩
        rw [draining] at drained
        cases success with
        | false => exact (quiet_scheduleClose database read fd).troubled drained
        | true => exact (unread_served database read fd).troubled drained
    | writable sends => exact (unread_clientEvent database server fd (by simp)).troubled troubled
    | pump sends => exact (unread_clientEvent database server fd (by simp)).troubled troubled
    | timeout => exact (unread_clientEvent database server fd (by simp)).troubled troubled

theorem troubled_stream (database : Database σ) (server : Server σ) (fd : Nat)
    (events : List ClientEvent) (troubled : server.troubled = true) :
    (events.foldl (streamStep database fd) server).troubled = true := by
  induction events generalizing server with
  | nil => exact troubled
  | cons event rest induction =>
      exact induction _ (troubled_streamStep database server fd event troubled)

variable {config : NetConfig} {db : σ}

/-- The stream ends in an event with nothing left behind, exactly if it is not cut off. -/
theorem leavesNothing_clientEvent (progress : Progress config database fd db 0 server)
    (isOpen : (server.client fd).closed = false) (event : ClientEvent)
    (untroubled : (server.clientEvent database fd event).troubled = false) :
    (server.clientEvent database fd event).LeavesNothing fd ↔ server.Uncut fd event := by
  have running : (server.client fd).outcome ≠ .hungUp := by
    rw [progress.running]
    decide
  have others : (∀ reads sends, event ≠ .readable reads sends) →
      (server.clientEvent database fd event).LeavesNothing fd := by
    intro reads ends
    exact absurd ((unread_clientEvent database server fd reads).hungUp fd ends) running
  cases event with
  | writable sends => exact iff_of_true (others (by simp)) trivial
  | pump sends => exact iff_of_true (others (by simp)) trivial
  | timeout => exact iff_of_true (others (by simp)) trivial
  | readable reads sends =>
      have drained := cutOff_drainRead { server with sends } fd reads progress.running
      revert untroubled
      unfold clientEvent Uncut
      dsimp only at drained ⊢
      rw [show ({ server with sends } : Server σ).client fd = server.client fd from rfl] at drained
      rcases draining : ({ server with sends } : Server σ).drainRead fd reads with
        ⟨read, success⟩
      rw [draining] at drained
      cases cut : cutOff (server.client fd).inputCap (server.client fd).inBuf reads with
      | some left =>
          rw [cut] at drained
          intro untroubled
          have quiet := quiet_scheduleClose database read fd
          have before : read.troubled = false := by
            cases troubled : read.troubled with
            | false => rfl
            | true =>
                cases success with
                | false => cases untroubled.symm.trans (quiet.troubled troubled)
                | true =>
                    cases untroubled.symm.trans
                      ((unread_served database read fd).troubled troubled)
          rcases drained before with ⟨stopped, ends, input⟩
          dsimp only at stopped
          rw [stopped]
          have emits := (emits_scheduleClose database read fd []
            (.inr (.inr (by rw [ends]; decide)))).1
          constructor
          · intro nothing _ other same
            cases same
            rw [← input, ← emits.inBuf]
            apply nothing
            rw [emits.outcome]
            exact ends
          · intro uncut _
            rw [emits.inBuf]
            exact input ▸ uncut isOpen left rfl
      | none =>
          rw [cut] at drained
          intro untroubled
          apply iff_of_true
          · intro finished
            cases success with
            | false =>
                have quiet := quiet_scheduleClose database read fd
                cases troubled : read.troubled with
                | true => cases untroubled.symm.trans (quiet.troubled troubled)
                | false => cases (drained troubled).1
            | true =>
                have served := unread_served database read fd
                cases troubled : read.troubled with
                | true => cases untroubled.symm.trans (served.troubled troubled)
                | false => cases (drained troubled).2.symm.trans (served.hungUp fd finished)
          · intro _ left wrong
            cases wrong

/-- Nothing has been left behind, exactly if the stream is nowhere cut off. -/
theorem leavesNothing_stream (between : Between config database fd db server)
    (events : List ClientEvent)
    (untroubled : (events.foldl (streamStep database fd) server).troubled = false) :
    (events.foldl (streamStep database fd) server).LeavesNothing fd ↔
      server.LeavesNothing fd ∧
        Runs.Always (streamStep database fd) (Uncut fd) server events := by
  induction events generalizing server with
  | nil => exact (and_iff_left Runs.always_nil).symm
  | cons event rest induction =>
      have stepped : Between config database fd db (streamStep database fd server event) :=
        between_run between [event]
      have before : (streamStep database fd server event).troubled = false := by
        cases troubled : (streamStep database fd server event).troubled with
        | false => rfl
        | true => cases untroubled.symm.trans (troubled_stream database _ fd rest troubled)
      rw [List.foldl_cons, induction stepped untroubled, Runs.always_cons, ← and_assoc]
      apply and_congr_left
      intro _
      cases closed : (server.client fd).closed with
      | true =>
          have same : streamStep database fd server event = server := if_pos closed
          rw [same]
          refine (and_iff_left ?_).symm
          cases event with
          | readable reads sends =>
              intro isOpen
              cases closed.symm.trans isOpen
          | writable sends => trivial
          | pump sends => trivial
          | timeout => trivial
      | false =>
          have same : streamStep database fd server event =
              server.clientEvent database fd event := by
            unfold streamStep step
            dsimp only
            rw [closed, if_neg (by simp)]
          have progress := between.progress closed
          rw [same] at before ⊢
          rw [leavesNothing_clientEvent progress closed event before]
          refine (and_iff_right ?_).symm
          intro finished
          cases progress.running.symm.trans finished

theorem running_accept (config : NetConfig) (fd : Nat) (db : σ) :
    ((({ config, db } : Server σ).accept fd).client fd).outcome = .running := by
  unfold Server.accept
  rw [if_neg (show ¬(!(({ config, db } : Server σ).client fd).closed) = true by simp [client])]
  by_cases full : ({ config, db } : Server σ).config.maxClients ≤
      ({ config, db } : Server σ).openClients
  · rw [if_pos full]
    rfl
  · rw [if_neg full, client_putClient_self]
    rfl

/-- However the bytes of a connection are cut into reads and turns, and whatever each
`send` takes: the commands dispatched and the bytes queued are a beginning of those of the
whole stream parsed at once, with nothing of what follows `QUIT` or a protocol error;
what has been sent, followed by what is still to be sent, is what has been queued; and
once as many turns are taken as there are bytes left, with no cap or budget exceeded,
everything has been dispatched and queued, exactly if the stream has not ended behind a
request that was in the buffer. -/
theorem pipeline_exact (config : NetConfig) (database : Database σ) (fd : Nat) (db : σ)
    (events : List ClientEvent) :
    let server := run database { config, db } (.accept fd :: events.map (.client fd))
    let client := server.client fd
    client.dispatched <+: (requests client.received).values ∧
      client.enqueued <+: output config database fd db client.received ∧
      client.sent ++ client.outBuf.drop client.outOff = client.enqueued ∧
      ∀ turns : List (List Send), client.inBuf.length ≤ turns.length →
        let after := run database server (turns.map fun sends => .client fd (.pump sends))
        (after.client fd).received = client.received ∧
          (after.troubled = false →
            ((after.client fd).dispatched = (requests client.received).values ∧
                (after.client fd).enqueued = output config database fd db client.received ↔
              Runs.Always (streamStep database fd) (Uncut fd)
                (({ config, db } : Server σ).accept fd) events)) := by
  intro server client
  have start := between_accept config database fd db
  have between : Between config database fd db server := between_run start events
  refine ⟨between.halted.dispatched, between.halted.enqueued, between.halted.ordered.order, ?_⟩
  intro turns enough after
  have received : (after.client fd).received = client.received :=
    received_pumps database server fd turns
  refine ⟨received, fun untroubled => ?_⟩
  have later : Between config database fd db after := by
    have ran := between_run between (turns.map .pump)
    rw [List.map_map] at ran
    exact ran
  have whole := later.whole_iff (settled_pumps between turns (.inr enough)) untroubled
  rw [received] at whole
  have streamed : after =
      (events ++ turns.map ClientEvent.pump).foldl (streamStep database fd)
        (({ config, db } : Server σ).accept fd) := by
    rw [List.foldl_append, List.foldl_map]
    change (turns.map fun sends => NetEvent.client fd (.pump sends)).foldl (step database)
      ((events.map (NetEvent.client fd)).foldl (step database)
        (({ config, db } : Server σ).accept fd)) = _
    rw [List.foldl_map, List.foldl_map]
    rfl
  have first : (({ config, db } : Server σ).accept fd).LeavesNothing fd := by
    intro finished
    cases (running_accept config fd db).symm.trans finished
  rw [whole, streamed]
  rw [streamed] at untroubled
  rw [leavesNothing_stream start _ untroubled, Runs.always_append]
  have pumps : Runs.Always (streamStep database fd) (Uncut fd)
      (events.foldl (streamStep database fd) (({ config, db } : Server σ).accept fd))
      (turns.map ClientEvent.pump) := by
    intro made event isPrefix
    have member : event ∈ turns.map ClientEvent.pump :=
      isPrefix.subset (List.mem_append_right made List.mem_cons_self)
    rcases List.mem_map.mp member with ⟨sends, _, same⟩
    subst event
    trivial
  exact ⟨fun both => both.2.1, fun along => ⟨first, along, pumps⟩⟩

/-- A database that answers every command alike. -/
def pongs : Database Unit :=
  { execute := fun db _ _ _ => (db, [], ascii "+PONG\r\n")
    cleanupClient := fun db _ => db }

/-- A `PING` and the beginning of the next one, in two reads. -/
def twoReads : List ClientEvent :=
  [.readable [.got (ascii "PI"), .again] [],
    .readable [.got (ascii "NG\r\nPI")] [.sent 3, .again]]

theorem pipeline_exact_ping :
    let server := run pongs { config := {}, db := () } (.accept 7 :: twoReads.map (.client 7))
    let after := run pongs server ([[], []].map fun sends => .client 7 (.pump sends))
    (after.client 7).dispatched = (requests (server.client 7).received).values ∧
      (after.client 7).enqueued = output {} pongs 7 () (server.client 7).received := by
  have uncut : Runs.Always (streamStep pongs 7) (Uncut 7)
      (({ config := {}, db := () } : Server Unit).accept 7) twoReads := by
    simp only [twoReads, Runs.always_cons]
    refine ⟨?_, ?_, Runs.always_nil⟩
    · intro _ left cut
      cases cut
    · intro _ left cut
      cases cut
  have exact := (pipeline_exact {} pongs 7 () twoReads).2.2.2 [[], []] (by decide +kernel)
  exact (exact.2 (by decide +kernel)).mpr uncut

/-- As many `PING`s as one read takes, and the beginning of the next one. -/
def pings : Bytes :=
  (List.replicate 2730 (ascii "PING\r\n")).flatten ++ ascii "PING"

theorem length_pings : pings.length = readChunk := by
  have one : (ascii "PING\r\n").length = 6 := by decide
  have last : (ascii "PING").length = 4 := by decide
  rw [pings, List.length_append, List.length_flatten, List.map_replicate, List.sum_replicate,
    one, last]
  rfl

/-- A stream that begins with a request has one. -/
theorem requests_of_front {front : Bytes} {used : Nat} {args : List Bytes}
    (found : Resp.parseRequest front 0 = .complete used args) (goes : isQuit args = false)
    (more : Bytes) : (requests (front ++ more)).values ≠ [] := by
  have whole : Resp.parseRequest (front ++ more) 0 = .complete used args := by
    rw [Resp.parseRequest_append more (Nat.zero_le _) (by rw [found]; simp), found]
  rw [requests_item whole goes]
  exact List.cons_ne_nil _ _

theorem requests_pings : (requests pings).values ≠ [] := by
  have first : ∀ count, (List.replicate (count + 1) (ascii "PING\r\n")).flatten ++
      ascii "PING" = ascii "PING\r\n" ++
        ((List.replicate count (ascii "PING\r\n")).flatten ++ ascii "PING") := by
    intro count
    rw [List.replicate_succ, List.flatten_cons, List.append_assoc]
  have found : Resp.parseRequest (ascii "PING\r\n") 0 = .complete 6 [ascii "PING"] := by
    decide +kernel
  rw [pings, first 2729]
  exact requests_of_front found (by decide) _

/-- A full read at whose end the stream ends. -/
theorem drainRead_cut {accepted : Server σ} {bytes : Bytes} (whole : bytes.length = readChunk)
    (new : accepted.client fd = Client.connect {} fd) (none : accepted.clientBuffers = 0)
    (plenty : accepted.config.maxClientBuffers = 2 ^ 30) :
    accepted.drainRead fd [.got bytes, .got []] =
      (((accepted.putClient fd { Client.connect {} fd with
          inBuf := bytes, received := bytes }).track fd).hangUp fd, false) := by
  have all : bytes.take readChunk = bytes := List.take_of_length_le whole.le
  have notEmpty : bytes ≠ [] := by
    intro empty
    rw [empty] at whole
    cases whole
  have here := client_track_self accepted fd
    { Client.connect {} fd with inBuf := bytes, received := bytes }
  have total : ((accepted.putClient fd { Client.connect {} fd with
      inBuf := bytes, received := bytes }).track fd).clientBuffers = readChunk := by
    change accepted.clientBuffers - ((accepted.putClient fd _).client fd).held +
      ((accepted.putClient fd _).client fd).buffered = _
    rw [client_putClient_self, none]
    change (0 : Int) - (0 : Nat) + ((bytes.length + 0 : Nat) : Int) = _
    rw [whole]
    rfl
  have fits : ((accepted.putClient fd { Client.connect {} fd with
      inBuf := bytes, received := bytes }).track fd).overBufferBudget 0 = false := by
    unfold overBufferBudget
    rw [total]
    change (!decide ((readChunk : Int) + (0 : Nat) ≤ (accepted.config.maxClientBuffers : Nat))) =
      false
    rw [plenty]
    decide
  unfold drainRead
  dsimp only
  have empty : ¬(Client.connect {} fd).inputCap ≤ (Client.connect {} fd).inBuf.length := by
    change ¬maxInputBuffer ≤ 0
    decide
  rw [new, if_neg empty, all, if_neg notEmpty]
  change (if ((accepted.putClient fd { Client.connect {} fd with
      inBuf := bytes, received := bytes }).track fd).overBufferBudget 0 = true then _ else _) = _
  rw [fits, if_neg (by decide), if_neg (by rw [whole]; decide)]
  unfold drainRead
  dsimp only
  have room : ¬(((accepted.putClient fd { Client.connect {} fd with
      inBuf := bytes, received := bytes }).track fd).client fd).inputCap ≤
      (((accepted.putClient fd { Client.connect {} fd with
        inBuf := bytes, received := bytes }).track fd).client fd).inBuf.length := by
    rw [here]
    change ¬maxInputBuffer ≤ bytes.length
    rw [whole]
    decide
  exact if_neg room

theorem clientEvent_unread (database : Database σ) {server failed : Server σ}
    {reads : List ReadCall} {sends : List Send}
    (unread : ({ server with sends } : Server σ).drainRead fd reads = (failed, false)) :
    server.clientEvent database fd (.readable reads sends) =
      scheduleClose database failed fd := by
  simp only [clientEvent, unread]

/-- A read that is full is followed by the end of the stream: nothing is dispatched. -/
theorem stream_cut_off :
    let server := run pongs { config := {}, db := () }
      (.accept 7 :: [ClientEvent.readable [.got pings, .got []] []].map (.client 7))
    server.troubled = false ∧ (server.client 7).closed = true ∧
      (server.client 7).received = pings ∧ (server.client 7).dispatched = [] ∧
      (requests pings).values ≠ [] := by
  have length := length_pings
  have many := requests_pings
  generalize pings = bytes at length many ⊢
  intro server
  have here : ((({ config := {}, db := () } : Server Unit).accept 7).client 7) =
      Client.connect {} 7 := client_putClient_self _ _ _
  have read := drainRead_cut length here rfl rfl
  have same : server = scheduleClose pongs
      (((((({ config := {}, db := () } : Server Unit).accept 7).putClient 7
        { Client.connect {} 7 with inBuf := bytes, received := bytes }).track 7).hangUp 7)) 7 := by
    change step pongs (({ config := {}, db := () } : Server Unit).accept 7)
      (.client 7 (.readable [.got bytes, .got []] [])) = _
    unfold step
    dsimp only
    rw [here, if_neg (show ¬(Client.connect {} 7).closed = true from Bool.false_ne_true)]
    exact clientEvent_unread pongs read
  have emits := (emits_scheduleClose pongs
    (((((({ config := {}, db := () } : Server Unit).accept 7).putClient 7
      { Client.connect {} 7 with inBuf := bytes, received := bytes }).track 7).hangUp 7)) 7 []
    (.inr (excused_hangUp _ 7))).1
  rw [same]
  refine ⟨rfl, closed_scheduleClose _ _ _, ?_, ?_, many⟩
  · rw [emits.received, hangUp, client_putClient_self, client_track_self]
  · rw [emits.dispatched, hangUp, client_putClient_self, client_track_self]
    rfl

end Server

end SomniumDB.Net
