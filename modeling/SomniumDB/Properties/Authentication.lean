import SomniumDB.Properties.Pipelining

/-! # What a connection without the password can do

With a password configured, a connection becomes authenticated only by a command that
carries it, and until then it learns nothing about the database and changes nothing. -/

namespace SomniumDB.Net

open Bytes

/-! ## Credentials -/

theorem passwordDiff_eq_zero {password : Bytes} {diff : UInt8} {pass : Bytes}
    (zero : passwordDiff diff password pass = 0) :
    diff = 0 ∧ (pass.length = password.length → pass = password) := by
  induction password generalizing diff pass with
  | nil => exact ⟨zero, List.eq_nil_of_length_eq_zero⟩
  | cons byte rest induction =>
      rcases induction zero with ⟨both, later⟩
      rcases UInt8.or_eq_zero_iff.mp both with ⟨before, same⟩
      refine ⟨before, fun length => ?_⟩
      cases pass with
      | nil => cases length
      | cons first others =>
          have equal : byte = first := UInt8.xor_eq_zero_iff.mp same
          have tails : others = rest := later (Nat.succ.inj length)
          rw [equal, tails]

/-- The loop without an early exit compares the whole password. -/
theorem credentialsOk_iff (user pass password : Bytes) (accepted : credentialsOk user pass password) :
    user = defaultUser ∧ pass = password := by
  unfold credentialsOk at accepted
  rw [decide_eq_true_eq] at accepted
  rcases accepted with ⟨zero, isDefault⟩
  rcases passwordDiff_eq_zero zero with ⟨start, same⟩
  refine ⟨isDefault, same ?_⟩
  by_contra different
  rw [if_pos different] at start
  cases start

/-- The command is an `AUTH` or a `HELLO` with the user `default` and the password. -/
def Carries (password : Bytes) (args : List Bytes) : Prop :=
  (isName (args.headD []) (ascii "AUTH") ∧
      (args.tail = [password] ∨ args.tail = [defaultUser, password])) ∨
    (isName (args.headD []) (ascii "HELLO") ∧
      ∃ front option rest, isName option (ascii "AUTH") ∧
        args.drop 2 = front ++ option :: defaultUser :: password :: rest)

theorem authenticate_cases (session : Session) (user pass password : Bytes) :
    (user = defaultUser ∧ pass = password) ∨
      (authenticate session user pass password).1 = session := by
  unfold authenticate
  cases accepted : credentialsOk user pass password with
  | true => exact .inl (credentialsOk_iff user pass password accepted)
  | false => exact .inr rfl

theorem auth_authenticated {session : Session} {args : List Bytes} {password : Bytes}
    (isAuth : isName (args.headD []) (ascii "AUTH") = true)
    (accepted : (auth session args password).1.authenticated = true) :
    session.authenticated = true ∨ Carries password args := by
  revert accepted
  unfold auth
  by_cases few : args.length ≠ 2 ∧ args.length ≠ 3
  · rw [if_pos few]
    exact .inl
  · rw [if_neg few]
    by_cases free : password = []
    · rw [if_pos free]
      exact .inl
    · rw [if_neg free]
      rcases authenticate_cases session (if args.length = 3 then args[1]?.getD [] else defaultUser)
        (args.getLast?.getD []) password with ⟨isDefault, same⟩ | same
      · refine fun _ => .inr (.inl ⟨isAuth, ?_⟩)
        match args, few, isDefault, same with
        | [_, _], _, _, same => exact .inl (congrArg ([·]) same)
        | [_, user, _], _, isDefault, same =>
            refine .inr ?_
            change user = defaultUser at isDefault
            rw [isDefault]
            exact congrArg ([defaultUser, ·]) same
        | [], few, _, _ => exact absurd (by simp) few
        | [_], few, _, _ => exact absurd (by simp) few
        | _ :: _ :: _ :: _ :: _, few, _, _ => exact absurd (by simp) few
      · rw [same]
        exact .inl

/-- Some option of `HELLO` carries the credentials. -/
def OptionCarries (password : Bytes) (options : List Bytes) : Prop :=
  ∃ front option rest, isName option (ascii "AUTH") = true ∧
    options = front ++ option :: defaultUser :: password :: rest

theorem OptionCarries.prepend {password : Bytes} {options : List Bytes}
    (carries : OptionCarries password options) (earlier : List Bytes) :
    OptionCarries password (earlier ++ options) := by
  rcases carries with ⟨front, option, rest, isAuth, rfl⟩
  exact ⟨earlier ++ front, option, rest, isAuth, (List.append_assoc _ _ _).symm⟩

theorem helloOptions_authenticated (password : Bytes) :
    ∀ (options : List Bytes) (session : Session),
      (helloOptions password session options).1.authenticated = true →
        session.authenticated = true ∨ OptionCarries password options
  | [], _, accepted => .inl accepted
  | [_], _, accepted => .inl accepted
  | [option, _], session, accepted => by
      unfold helloOptions at accepted
      by_cases isSetname : isName option (ascii "SETNAME") = true
      · rw [if_pos isSetname] at accepted
        exact .inl accepted
      · rw [if_neg isSetname] at accepted
        exact .inl accepted
  | option :: first :: second :: rest, session, accepted => by
      have skipThree := fun carries : OptionCarries password rest =>
        carries.prepend [option, first, second]
      have skipTwo := fun carries : OptionCarries password (second :: rest) =>
        carries.prepend [option, first]
      unfold helloOptions at accepted
      by_cases isAuth : isName option (ascii "AUTH") = true
      · rw [if_pos isAuth] at accepted
        by_cases free : password = []
        · rw [if_pos free] at accepted
          exact (helloOptions_authenticated password rest session accepted).imp id skipThree
        · rw [if_neg free] at accepted
          rcases authenticate_cases session first second password with ⟨rfl, rfl⟩ | same
          · exact .inr ⟨[], option, rest, isAuth, rfl⟩
          · rcases authenticated : authenticate session first second password with
              ⟨changed, reply⟩
            rw [authenticated] at same accepted
            obtain rfl : changed = session := same
            dsimp only at accepted
            by_cases refused : reply.head? = some 45
            · rw [if_pos refused] at accepted
              exact .inl accepted
            · rw [if_neg refused] at accepted
              exact (helloOptions_authenticated password rest changed accepted).imp id skipThree
      · rw [if_neg isAuth] at accepted
        by_cases isSetname : isName option (ascii "SETNAME") = true
        · rw [if_pos isSetname] at accepted
          exact (helloOptions_authenticated password (second :: rest) session accepted).imp id
            skipTwo
        · rw [if_neg isSetname] at accepted
          exact .inl accepted

theorem helloDone_authenticated (session : Session) (fd : Nat) (proto : Int) :
    (helloDone session fd proto).1.authenticated = session.authenticated := by
  unfold helloDone
  by_cases unknown : (!session.authenticated) = true
  · rw [if_pos unknown]
  · rw [if_neg unknown]

theorem hello_authenticated {session : Session} {fd : Nat} {args : List Bytes} {password : Bytes}
    (isHello : isName (args.headD []) (ascii "HELLO") = true)
    (accepted : (hello session fd args password).1.authenticated = true) :
    session.authenticated = true ∨ Carries password args := by
  match args, isHello, accepted with
  | [], _, accepted => exact .inl (helloDone_authenticated _ _ _ ▸ accepted)
  | [_], _, accepted => exact .inl (helloDone_authenticated _ _ _ ▸ accepted)
  | name :: version :: options, isHello, accepted =>
      unfold hello at accepted
      dsimp only at accepted
      cases number : fromCharsInt version with
      | none =>
          rw [number] at accepted
          exact .inl accepted
      | some proto =>
          rw [number] at accepted
          dsimp only at accepted
          by_cases wrong : proto ≠ 2 ∧ proto ≠ 3
          · rw [if_pos wrong] at accepted
            exact .inl accepted
          · rw [if_neg wrong] at accepted
            have read := helloOptions_authenticated password options session
            rcases parsed : helloOptions password session options with ⟨changed, reply⟩
            rw [parsed] at read accepted
            have authenticated : changed.authenticated = true := by
              cases reply with
              | some reply => exact accepted
              | none => exact helloDone_authenticated _ _ _ ▸ accepted
            rcases read authenticated with before | carries
            · exact .inl before
            · exact .inr (.inr ⟨isHello, carries⟩)

namespace Server

variable {σ τ : Type u} {server after : Server σ} {database : Database σ} {fd : Nat}

/-- A command authenticates the connection only if it carries the credentials. -/
theorem answer_authenticated {config : NetConfig} {session : Session} {db : σ} {args : List Bytes}
    (accepted : (answer config database fd session db args).1.authenticated = true) :
    session.authenticated = true ∨ Carries config.password args := by
  unfold answer at accepted
  dsimp only at accepted
  by_cases isAuth : isName (args.headD []) (ascii "AUTH") = true
  · rw [if_pos isAuth] at accepted
    exact auth_authenticated isAuth accepted
  · rw [if_neg isAuth] at accepted
    by_cases isHello : isName (args.headD []) (ascii "HELLO") = true
    · rw [if_pos isHello] at accepted
      exact hello_authenticated isHello accepted
    · rw [if_neg isHello] at accepted
      by_cases unknown : (!session.authenticated) = true
      · rw [if_pos unknown] at accepted
        exact .inl accepted
      · rw [if_neg unknown] at accepted
        exact .inl accepted

/-- Without the credentials the answer does not depend on the database. -/
theorem answer_locked (config : NetConfig) (fd : Nat) {session : Session} (args : List Bytes)
    (locked : session.authenticated = false) :
    ∃ changed reply, ∀ {ρ : Type u} (database : Database ρ) (db : ρ),
      answer config database fd session db args = (changed, db, [], reply) := by
  unfold answer
  dsimp only
  by_cases isAuth : isName (args.headD []) (ascii "AUTH") = true
  · simp only [if_pos isAuth]
    exact ⟨_, _, fun _ _ => rfl⟩
  · simp only [if_neg isAuth]
    by_cases isHello : isName (args.headD []) (ascii "HELLO") = true
    · simp only [if_pos isHello]
      exact ⟨_, _, fun _ _ => rfl⟩
    · simp only [if_neg isHello]
      rw [locked]
      exact ⟨session, noauth, fun _ _ => rfl⟩

/-! ## Becoming authenticated -/

/-- What any step of a connection may do to the sessions: a client becomes authenticated
only by a command that it has dispatched. -/
structure Grows (server after : Server σ) : Prop where
  config : after.config = server.config
  dispatched : ∀ fd, (server.client fd).dispatched <+: (after.client fd).dispatched
  earned : ∀ fd, (after.client fd).session.authenticated = true →
    (server.client fd).session.authenticated = true ∨
      ∃ args ∈ (after.client fd).dispatched, Carries server.config.password args

theorem Grows.refl : Grows server server :=
  ⟨rfl, fun _ => List.prefix_rfl, fun _ => .inl⟩

theorem Grows.trans {third : Server σ} (left : Grows server after) (right : Grows after third) :
    Grows server third := by
  refine ⟨right.config.trans left.config,
    fun fd => (left.dispatched fd).trans (right.dispatched fd), fun fd accepted => ?_⟩
  rcases right.earned fd accepted with before | ⟨args, dispatched, carries⟩
  · rcases left.earned fd before with first | ⟨args, dispatched, carries⟩
    · exact .inl first
    · exact .inr ⟨args, (right.dispatched fd).subset dispatched, carries⟩
  · rw [left.config] at carries
    exact .inr ⟨args, dispatched, carries⟩

theorem Quiet.grows (quiet : Quiet server after) : Grows server after := by
  refine ⟨quiet.config, fun fd => ?_, fun fd accepted => ?_⟩
  · rw [(quiet.alike fd).dispatched]
  · rw [(quiet.alike fd).session] at accepted
    exact .inl accepted

theorem grows_command (database : Database σ) (server : Server σ) (fd : Nat)
    (args : List Bytes) : Grows server (command database server fd args).1 := by
  unfold command
  dsimp only
  refine Grows.trans ?_ (quiet_deliveries database _ _).grows
  have access := fun other => client_putClient
    { server with db := (answer server.config database fd (server.client fd).session server.db
      args).2.1 } fd other
    { server.client fd with
      session := (answer server.config database fd (server.client fd).session server.db args).1
      dispatched := (server.client fd).dispatched ++ [args] }
  refine ⟨rfl, fun other => ?_, fun other accepted => ?_⟩
  · rw [access]
    by_cases same : other = fd
    · rw [if_pos same]
      rw [same]
      exact List.prefix_append _ _
    · rw [if_neg same]
      exact List.prefix_rfl
  · rw [access] at accepted ⊢
    by_cases same : other = fd
    · rw [if_pos same] at accepted
      rw [if_pos same, same]
      rcases answer_authenticated accepted with before | carries
      · exact .inl before
      · exact .inr ⟨args, List.mem_append_right _ List.mem_cons_self, carries⟩
    · rw [if_neg same] at accepted
      exact .inl accepted

theorem grows_frames (fd : Nat) : Hosts.Frames fd (@Grows σ) :=
  (quiet_frames fd).mono .trans Quiet.grows

theorem grows_processLoop (database : Database σ) (fd budget pos : Nat) (server : Server σ) :
    Grows server (processLoop database fd budget pos server).1 :=
  (grows_frames fd).processLoop (fun server args => grows_command database server fd args)
    budget pos server

theorem grows_serve (database : Database σ) (server : Server σ) (fd : Nat) :
    Grows server (serve database server fd).1 :=
  frames_serve (grows_frames fd) (fun server args => grows_command database server fd args)
    (fun server => (quiet_scheduleClose database server fd).grows) server

theorem grows_putClient (server : Server σ) (fd : Nat) (client : Client)
    (session : client.session = (server.client fd).session)
    (dispatched : client.dispatched = (server.client fd).dispatched) :
    Grows server (server.putClient fd client) := by
  refine ⟨rfl, fun other => ?_, fun other accepted => ?_⟩
  · rw [client_putClient]
    by_cases same : other = fd
    · rw [if_pos same]
      rw [dispatched, same]
    · rw [if_neg same]
  · rw [client_putClient] at accepted
    by_cases same : other = fd
    · rw [if_pos same] at accepted
      rw [session, ← same] at accepted
      exact .inl accepted
    · rw [if_neg same] at accepted
      exact .inl accepted

theorem grows_drainRead (server : Server σ) (fd : Nat) (reads : List ReadCall) :
    Grows server (server.drainRead fd reads).1 := by
  apply frames_drainRead (fun _ => .refl) .trans (fun server => grows_putClient server fd _ rfl rfl)
    (fun server => (emits_trouble server fd).quiet.grows)
  intro server taken
  have grown := grows_putClient server fd { server.client fd with
    inBuf := (server.client fd).inBuf ++ taken
    received := (server.client fd).received ++ taken } rfl rfl
  exact grown.trans (quiet_track _ fd).grows

theorem grows_sends (server : Server σ) (sends : List Send) :
    Grows server { server with sends } :=
  ⟨rfl, fun _ => List.prefix_rfl, fun _ => .inl⟩

theorem grows_clientEvent (database : Database σ) (server : Server σ) (fd : Nat)
    (event : ClientEvent) : Grows server (server.clientEvent database fd event) := by
  cases event with
  | readable reads sends =>
      have reading : Grows server (({ server with sends } : Server σ).drainRead fd reads).1 :=
        (grows_sends server sends).trans (grows_drainRead _ fd reads)
      unfold clientEvent
      dsimp only
      rcases draining : ({ server with sends } : Server σ).drainRead fd reads with ⟨read, success⟩
      rw [draining] at reading
      cases success with
      | false => exact reading.trans (quiet_scheduleClose database read fd).grows
      | true =>
          have serves := reading.trans (grows_serve database read fd)
          dsimp only
          rcases serving : serve database read fd with ⟨served, more⟩
          rw [serving] at serves
          cases more with
          | true => exact serves
          | false =>
              dsimp only
              by_cases full : (served.client fd).inputCap ≤ List.length (served.client fd).inBuf
              · rw [if_pos full]
                exact serves.trans ((emits_trouble served fd).quiet.trans
                  (quiet_scheduleClose database _ fd)).grows
              · rw [if_neg full]
                exact serves
  | writable sends =>
      have flushes : Grows server (({ server with sends } : Server σ).flushOutput fd).1 :=
        (grows_sends server sends).trans (emits_flushOutput _ fd).quiet.grows
      unfold clientEvent
      dsimp only
      rcases flushing : ({ server with sends } : Server σ).flushOutput fd with ⟨flushed, result⟩
      rw [flushing] at flushes
      cases result with
      | dead => exact flushes.trans (quiet_scheduleClose database flushed fd).grows
      | complete => exact flushes
      | pending => exact flushes
  | pump sends =>
      unfold clientEvent
      dsimp only
      by_cases empty : (server.client fd).inBuf = []
      · rw [if_pos empty]
        exact .refl
      · rw [if_neg empty]
        exact (grows_sends server sends).trans (grows_serve database _ fd)
  | timeout =>
      unfold clientEvent
      dsimp only
      by_cases authenticated : (server.client fd).session.authenticated = true
      · rw [if_pos authenticated]
        exact .refl
      · rw [if_neg authenticated]
        exact ((emits_trouble server fd).quiet.trans (quiet_scheduleClose database _ fd)).grows

theorem grows_step (database : Database σ) (server : Server σ) (fd : Nat)
    (event : ClientEvent) : Grows server (step database server (.client fd event)) := by
  unfold step
  dsimp only
  by_cases closed : (server.client fd).closed = true
  · rw [if_pos closed]
    exact .refl
  · rw [if_neg closed]
    exact grows_clientEvent database server fd event

theorem grows_run (database : Database σ) (server : Server σ) (fd : Nat)
    (events : List ClientEvent) :
    Grows server (run database server (events.map (.client fd))) := by
  induction events generalizing server with
  | nil => exact .refl
  | cons event rest induction =>
      exact (grows_step database server fd event).trans (induction _)

/-- Every authenticated connection has sent the credentials. -/
def Guarded (server : Server σ) : Prop :=
  ∀ fd, (server.client fd).session.authenticated = true →
    ∃ args ∈ (server.client fd).dispatched, Carries server.config.password args

theorem Guarded.grows (guarded : server.Guarded) (grows : Grows server after) :
    after.Guarded := by
  intro fd accepted
  rw [grows.config]
  rcases grows.earned fd accepted with before | earned
  · rcases guarded fd before with ⟨args, dispatched, carries⟩
    exact ⟨args, (grows.dispatched fd).subset dispatched, carries⟩
  · exact earned

theorem guarded_accept (guarded : server.Guarded) (locked : server.config.password ≠ [])
    (fd : Nat) : (server.accept fd).Guarded := by
  unfold accept
  by_cases alive : (!(server.client fd).closed) = true
  · rw [if_pos alive]
    exact guarded
  · rw [if_neg alive]
    by_cases full : server.config.maxClients ≤ server.openClients
    · rw [if_pos full]
      exact guarded.grows (emits_trouble server fd).quiet.grows
    · rw [if_neg full]
      intro other accepted
      rw [client_putClient] at accepted ⊢
      by_cases same : other = fd
      · rw [if_pos same] at accepted
        exact absurd (of_decide_eq_true accepted) locked
      · rw [if_neg same] at accepted
        rw [if_neg same]
        exact guarded other accepted

theorem config_step (database : Database σ) (server : Server σ) (event : NetEvent) :
    (step database server event).config = server.config := by
  cases event with
  | accept fd =>
      unfold step accept
      dsimp only
      by_cases alive : (!(server.client fd).closed) = true
      · rw [if_pos alive]
      · rw [if_neg alive]
        by_cases full : server.config.maxClients ≤ server.openClients
        · rw [if_pos full]
          rfl
        · rw [if_neg full]
          rfl
  | client fd event => exact (grows_step database server fd event).config

theorem config_run (database : Database σ) (server : Server σ) (events : List NetEvent) :
    (run database server events).config = server.config := by
  induction events generalizing server with
  | nil => rfl
  | cons event rest induction =>
      exact (induction _).trans (config_step database server event)

theorem guarded_run (guarded : server.Guarded) (locked : server.config.password ≠ [])
    (database : Database σ) (events : List NetEvent) : (run database server events).Guarded := by
  induction events generalizing server with
  | nil => exact guarded
  | cons event rest induction =>
      have same := config_step database server event
      refine induction ?_ (same ▸ locked)
      cases event with
      | accept fd => exact guarded_accept guarded locked fd
      | client fd event => exact guarded.grows (grows_step database server fd event)

/-! ## Two databases -/

/-- The same connections over another database. -/
def withDb (server : Server σ) (db : τ) : Server τ :=
  { config := server.config
    clients := server.clients
    clientBuffers := server.clientBuffers
    db
    sends := server.sends
    troubled := server.troubled }

theorem client_withDb (server : Server σ) (db : τ) (fd : Nat) :
    (server.withDb db).client fd = server.client fd := rfl

theorem sends_withDb (server : Server σ) (db : τ) : (server.withDb db).sends = server.sends := rfl

theorem overBufferBudget_withDb (server : Server σ) (db : τ) (extra : Nat) :
    (server.withDb db).overBufferBudget extra = server.overBufferBudget extra := rfl

theorem flushOutput_withDb (server : Server σ) (db : τ) (fd : Nat) :
    (server.withDb db).flushOutput fd =
      ((server.flushOutput fd).1.withDb db, (server.flushOutput fd).2) := by
  unfold flushOutput
  rw [client_withDb, sends_withDb]
  rcases (server.client fd).flushLoop server.sends with ⟨client, result, sends⟩
  cases result with
  | complete => rfl
  | pending => rfl
  | dead => rfl

theorem enqueueOutput_withDb (server : Server σ) (db : τ) (fd : Nat) (data : Bytes) :
    (server.withDb db).enqueueOutput fd data =
      ((server.enqueueOutput fd data).1.withDb db, (server.enqueueOutput fd data).2) := by
  unfold enqueueOutput
  dsimp only
  rw [client_withDb, overBufferBudget_withDb]
  by_cases closed : (server.client fd).closed = true
  · simp only [if_pos closed]
  · simp only [if_neg closed]
    by_cases beyond : (server.client fd).outputCap < (server.client fd).pendingOut + data.length
    · simp only [if_pos beyond]
      rfl
    · simp only [if_neg beyond]
      by_cases exceeds : server.overBufferBudget (data.length) = true
      · simp only [if_pos exceeds]
        rfl
      · simp only [if_neg exceeds]
        rfl

theorem finish_withDb (server : Server σ) (db : τ) (fd : Nat) (reply : Bytes) :
    (server.withDb db).finish fd reply =
      ((server.finish fd reply).1.withDb db, (server.finish fd reply).2) := by
  unfold finish
  rw [enqueueOutput_withDb]
  rcases server.enqueueOutput fd reply with ⟨queued, accepted⟩
  cases accepted with
  | false => rfl
  | true =>
      dsimp only
      rw [flushOutput_withDb]
      rfl

theorem drainRead_withDb (server : Server σ) (db : τ) (fd : Nat) (reads : List ReadCall) :
    (server.withDb db).drainRead fd reads =
      ((server.drainRead fd reads).1.withDb db, (server.drainRead fd reads).2) := by
  induction reads generalizing server with
  | nil => rfl
  | cons call rest induction =>
      unfold drainRead
      dsimp only
      rw [client_withDb]
      by_cases full : (server.client fd).inputCap ≤ List.length (server.client fd).inBuf
      · simp only [if_pos full]
      · simp only [if_neg full]
        cases call with
        | interrupted => exact induction server
        | again => rfl
        | failed => rfl
        | got bytes =>
            dsimp only
            generalize ({ server.client fd with
                inBuf := (server.client fd).inBuf ++ bytes.take readChunk
                received := (server.client fd).received ++ bytes.take readChunk } : Client) = grown
            change (if _ then _ else if ((server.putClient fd grown).track fd).overBufferBudget 0
              then _ else _) = _
            by_cases empty : bytes.take readChunk = []
            · simp only [if_pos empty]
              rfl
            · simp only [if_neg empty]
              by_cases exceeds : ((server.putClient fd grown).track fd).overBufferBudget 0 = true
              · simp only [if_pos exceeds]
                rfl
              · simp only [if_neg exceeds]
                by_cases short : (bytes.take readChunk).length < readChunk
                · simp only [if_pos short]
                  rfl
                · simp only [if_neg short]
                  exact induction ((server.putClient fd grown).track fd)

/-- A command of a connection that is not authenticated does not reach the database. -/
theorem command_withDb (first : Database σ) (second : Database τ) (server : Server σ) (db : τ)
    (args : List Bytes) (locked : (server.client fd).session.authenticated = false) :
    command second (server.withDb db) fd args =
      ((command first server fd args).1.withDb db, (command first server fd args).2) := by
  rcases answer_locked server.config fd args locked with ⟨changed, reply, answers⟩
  have left := answers first server.db
  have right : answer (server.withDb db).config second fd ((server.withDb db).client fd).session
      (server.withDb db).db args = (changed, db, [], reply) := answers second db
  unfold command
  dsimp only
  rw [left, right]
  rfl

/-- No command with the credentials has been dispatched. -/
def Unaware (fd : Nat) (server : Server σ) : Prop :=
  ∀ args ∈ (server.client fd).dispatched, ¬Carries server.config.password args

theorem Unaware.before (grows : Grows server after) (unaware : after.Unaware fd) :
    server.Unaware fd := by
  intro args dispatched
  rw [← grows.config]
  exact unaware args ((grows.dispatched fd).subset dispatched)

theorem Unaware.locked (grows : Grows server after) (unaware : after.Unaware fd)
    (locked : (server.client fd).session.authenticated = false) :
    (after.client fd).session.authenticated = false := by
  cases accepted : (after.client fd).session.authenticated with
  | false => rfl
  | true =>
      rcases grows.earned fd accepted with before | ⟨args, dispatched, carries⟩
      · rw [locked] at before
        cases before
      · rw [← grows.config] at carries
        exact absurd carries (unaware args dispatched)

theorem processLoop_withDb (first : Database σ) (second : Database τ) (db : τ) (fd budget pos : Nat)
    (server : Server σ) (locked : (server.client fd).session.authenticated = false)
    (unaware : (processLoop first fd budget pos server).1.Unaware fd) :
    processLoop second fd budget pos (server.withDb db) =
      ((processLoop first fd budget pos server).1.withDb db,
        (processLoop first fd budget pos server).2) := by
  induction budget generalizing pos server with
  | zero => rfl
  | succ budget induction =>
      revert unaware
      rw [processLoop_succ, processLoop_succ, client_withDb]
      cases Resp.parseRequest (server.client fd).inBuf pos with
      | needMore => exact fun _ => rfl
      | malformed => exact fun _ => rfl
      | complete stop args =>
          dsimp only
          split
          · exact fun _ => rfl
          · have calls := grows_command first server fd args
            rw [command_withDb first second server db args locked]
            rcases called : command first server fd args with ⟨answered, reply⟩
            rw [called] at calls
            dsimp only
            by_cases empty : reply = []
            · simp only [if_pos empty]
              intro unaware
              have later := grows_processLoop first fd budget stop answered
              exact induction stop answered ((unaware.before later).locked calls locked) unaware
            · simp only [if_neg empty]
              have queues := calls.trans (quiet_enqueueOutput answered fd reply).grows
              rw [enqueueOutput_withDb]
              rcases enqueued : answered.enqueueOutput fd reply with ⟨queued, accepted⟩
              rw [enqueued] at queues
              cases accepted with
              | false => exact fun _ => rfl
              | true =>
                  intro unaware
                  have later := grows_processLoop first fd budget stop queued
                  exact induction stop queued ((unaware.before later).locked queues locked) unaware

theorem processBuffered_withDb (first : Database σ) (second : Database τ) (db : τ)
    (locked : (server.client fd).session.authenticated = false)
    (unaware : (processBuffered first server fd).1.Unaware fd) :
    processBuffered second (server.withDb db) fd =
      ((processBuffered first server fd).1.withDb db, (processBuffered first server fd).2) := by
  have same := processLoop_withDb first second db fd maxCommandsPerTurn 0 server locked
    (unaware.before (quiet_afterLoop first server fd).grows)
  rw [processBuffered_eq, processBuffered_eq, same]
  rcases processLoop first fd maxCommandsPerTurn 0 server with ⟨processed, pos, ending⟩
  have erased : (processed.withDb db).eraseInput fd pos = (processed.eraseInput fd pos).withDb db :=
    rfl
  cases ending with
  | overflow => rfl
  | quit =>
      dsimp only
      rw [erased, finish_withDb]
  | malformed =>
      dsimp only
      rw [erased, finish_withDb]
  | budget =>
      dsimp only
      rw [erased, flushOutput_withDb]
      rcases (processed.eraseInput fd pos).flushOutput fd with ⟨flushed, result⟩
      cases result <;> rfl
  | waiting =>
      dsimp only
      rw [erased, flushOutput_withDb]
      rcases (processed.eraseInput fd pos).flushOutput fd with ⟨flushed, result⟩
      cases result <;> rfl

/-- The same connections, over a database that has at most been told that the connection
is closed. -/
structure Twin (database : Database τ) (fd : Nat) (db : τ) (server : Server σ)
    (other : Server τ) : Prop where
  same : other = server.withDb other.db
  untouched : other.db = db ∨
    (server.client fd).closed = true ∧ other.db = database.cleanupClient db fd

theorem twin_withDb (database : Database τ) (db : τ) (server : Server σ) :
    Twin database fd db server (server.withDb db) :=
  ⟨rfl, .inl rfl⟩

theorem twin_scheduleClose (first : Database σ) (second : Database τ) (db : τ)
    (server : Server σ) :
    Twin second fd db (scheduleClose first server fd)
      (scheduleClose second (server.withDb db) fd) := by
  have closes := closed_scheduleClose first server fd
  unfold scheduleClose at closes ⊢
  dsimp only at closes ⊢
  rw [client_withDb]
  by_cases closed : (server.client fd).closed = true
  · simp only [if_pos closed]
    exact twin_withDb second db server
  · simp only [if_neg closed]
    rw [if_neg closed] at closes
    exact ⟨rfl, .inr ⟨closes, rfl⟩⟩

theorem Twin.client {second : Database τ} {db : τ} {other : Server τ}
    (twin : Twin second fd db server other) : other.client fd = server.client fd := by
  rw [twin.same]
  rfl

theorem Twin.trouble {second : Database τ} {db : τ} {other : Server τ}
    (twin : Twin second fd db server other) : Twin second fd db server.trouble other.trouble := by
  refine ⟨?_, twin.untouched⟩
  rw [twin.same]
  rfl

theorem Twin.scheduleClose {second : Database τ} {db : τ} {other : Server τ}
    (first : Database σ) (twin : Twin second fd db server other) :
    Twin second fd db (scheduleClose first server fd) (scheduleClose second other fd) := by
  have same := twin.same
  rcases twin.untouched with untouched | ⟨closed, told⟩
  · rw [untouched] at same
    rw [same]
    exact twin_scheduleClose first second db server
  · unfold Server.scheduleClose
    rw [twin.client]
    dsimp only
    rw [if_pos closed, if_pos closed]
    exact twin

theorem twin_serve (first : Database σ) (second : Database τ) (db : τ)
    (locked : (server.client fd).session.authenticated = false)
    (unaware : (serve first server fd).1.Unaware fd) :
    Twin second fd db (serve first server fd).1 (serve second (server.withDb db) fd).1 ∧
      (serve second (server.withDb db) fd).2 = (serve first server fd).2 := by
  have processes : Grows (processBuffered first server fd).1 (serve first server fd).1 := by
    unfold serve
    rcases processBuffered first server fd with ⟨served, turn⟩
    cases turn with
    | drop => exact (quiet_scheduleClose first served fd).grows
    | done => exact .refl
    | more => exact .refl
  have same := processBuffered_withDb first second db locked (unaware.before processes)
  unfold serve
  rw [same]
  rcases processBuffered first server fd with ⟨served, turn⟩
  cases turn with
  | drop => exact ⟨twin_scheduleClose first second db served, rfl⟩
  | done => exact ⟨twin_withDb second db served, rfl⟩
  | more => exact ⟨twin_withDb second db served, rfl⟩

theorem twin_clientEvent (first : Database σ) (second : Database τ) (db : τ)
    (locked : (server.client fd).session.authenticated = false) (event : ClientEvent)
    (unaware : (server.clientEvent first fd event).Unaware fd) :
    Twin second fd db (server.clientEvent first fd event)
      ((server.withDb db).clientEvent second fd event) := by
  cases event with
  | readable reads sends =>
      have read : ({ server.withDb db with sends } : Server τ).drainRead fd reads =
          ((({ server with sends } : Server σ).drainRead fd reads).1.withDb db,
            (({ server with sends } : Server σ).drainRead fd reads).2) :=
        drainRead_withDb { server with sends } db fd reads
      have reading := (grows_sends server sends).trans
        (grows_drainRead { server with sends } fd reads)
      revert unaware
      unfold clientEvent
      dsimp only
      rw [read]
      rcases draining : ({ server with sends } : Server σ).drainRead fd reads with
        ⟨drained, success⟩
      replace reading : Grows server drained := by
        rw [draining] at reading
        exact reading
      cases success with
      | false => exact fun _ => twin_scheduleClose first second db drained
      | true =>
          have serves := grows_serve first drained fd
          dsimp only
          intro unaware
          have untilServed : (serve first drained fd).1.Unaware fd := by
            revert unaware
            rcases serve first drained fd with ⟨served, more⟩
            cases more with
            | true => exact id
            | false =>
                dsimp only
                by_cases full : (served.client fd).inputCap ≤ List.length (served.client fd).inBuf
                · rw [if_pos full]
                  exact fun unaware => unaware.before ((emits_trouble served fd).quiet.trans
                    (quiet_scheduleClose first _ fd)).grows
                · rw [if_neg full]
                  exact id
          have stillLocked := (untilServed.before serves).locked reading locked
          rcases twin_serve first second db stillLocked untilServed with ⟨twin, sameTurn⟩
          rcases serving : serve first drained fd with ⟨served, more⟩
          rcases otherServing : serve second (drained.withDb db) fd with ⟨other, otherMore⟩
          rw [serving, otherServing] at twin sameTurn
          obtain rfl : otherMore = more := sameTurn
          have client : other.client fd = served.client fd := twin.client
          cases otherMore with
          | true => exact twin
          | false =>
              dsimp only
              rw [client]
              by_cases capped : (served.client fd).inputCap ≤ List.length (served.client fd).inBuf
              · simp only [if_pos capped]
                exact twin.trouble.scheduleClose first
              · simp only [if_neg capped]
                exact twin
  | writable sends =>
      have flushes : ({ server.withDb db with sends } : Server τ).flushOutput fd =
          ((({ server with sends } : Server σ).flushOutput fd).1.withDb db,
            (({ server with sends } : Server σ).flushOutput fd).2) :=
        flushOutput_withDb { server with sends } db fd
      unfold clientEvent
      dsimp only
      rw [flushes]
      rcases ({ server with sends } : Server σ).flushOutput fd with ⟨flushed, result⟩
      cases result with
      | dead => exact twin_scheduleClose first second db flushed
      | complete => exact twin_withDb second db flushed
      | pending => exact twin_withDb second db flushed
  | pump sends =>
      revert unaware
      unfold clientEvent
      dsimp only
      rw [client_withDb]
      by_cases empty : (server.client fd).inBuf = []
      · simp only [if_pos empty]
        exact fun _ => twin_withDb second db server
      · simp only [if_neg empty]
        intro unaware
        have still : (({ server with sends } : Server σ).client fd).session.authenticated = false :=
          locked
        exact (twin_serve first second db still unaware).1
  | timeout =>
      unfold clientEvent
      dsimp only
      rw [client_withDb, locked]
      exact twin_scheduleClose first second db server.trouble

theorem twin_run (first : Database σ) (second : Database τ) {db : τ} {other : Server τ}
    (twin : Twin second fd db server other)
    (locked : (server.client fd).session.authenticated = false) (events : List ClientEvent)
    (unaware : (run first server (events.map (.client fd))).Unaware fd) :
    Twin second fd db (run first server (events.map (.client fd)))
        (run second other (events.map (.client fd))) ∧
      ((run first server (events.map (.client fd))).client fd).session.authenticated = false := by
  induction events generalizing server other with
  | nil => exact ⟨twin, locked⟩
  | cons event rest induction =>
      have grows := grows_step first server fd event
      have later := grows_run first (step first server (.client fd event)) fd rest
      have unawareHere := unaware.before later
      refine induction ?_ (unawareHere.locked grows locked) unaware
      unfold step at unawareHere ⊢
      dsimp only at unawareHere ⊢
      rw [twin.client]
      cases closed : (server.client fd).closed with
      | true => exact twin
      | false =>
          rw [closed] at unawareHere
          have same := twin.same
          have untouched : other.db = db := by
            refine twin.untouched.resolve_right ?_
            rintro ⟨already, _⟩
            rw [closed] at already
            cases already
          rw [untouched] at same
          rw [same]
          exact twin_clientEvent first second db locked event unawareHere

theorem accept_withDb (server : Server σ) (db : τ) (fd : Nat) :
    (server.withDb db).accept fd = (server.accept fd).withDb db := by
  unfold accept
  rw [client_withDb]
  by_cases alive : (!(server.client fd).closed) = true
  · simp only [if_pos alive]
  · simp only [if_neg alive]
    change (if server.config.maxClients ≤ server.openClients then _ else _) = _
    by_cases full : server.config.maxClients ≤ server.openClients
    · simp only [if_pos full]
      rfl
    · simp only [if_neg full]
      rfl

theorem guarded_new {config : NetConfig} (locked : config.password ≠ []) (db : σ) :
    ({ config, db } : Server σ).Guarded := by
  intro fd accepted
  exact absurd (of_decide_eq_true accepted) locked

theorem locked_accept {config : NetConfig} (locked : config.password ≠ []) (db : σ) (fd : Nat) :
    ((({ config, db } : Server σ).accept fd).client fd).session.authenticated = false := by
  have new : decide (config.password = []) = false := decide_eq_false locked
  unfold accept
  split
  · exact new
  · split
    · exact new
    · rw [client_putClient_self]
      exact new

/-- With a password configured, on every server: a connection is authenticated only if it
has dispatched a command that carries the user `default` and the password. And of a
connection whose stream has no such command nothing depends on the database: over any two
databases it is in the same state with the same output, it is not authenticated, and the
database is as it was, except that it has been told if the connection was closed. -/
theorem unauthenticated_isolated (config : NetConfig) (locked : config.password ≠ [])
    (first : Database σ) (second : Database τ) (db : σ) (otherDb : τ) :
    (∀ (events : List NetEvent) (fd : Nat),
      let client := (run first { config, db } events).client fd
      client.session.authenticated = true →
        ∃ args ∈ client.dispatched, Carries config.password args) ∧
    ∀ (fd : Nat) (events : List ClientEvent),
      let server := run first { config, db } (.accept fd :: events.map (.client fd))
      let other := run second { config, db := otherDb } (.accept fd :: events.map (.client fd))
      (∀ args ∈ (requests (server.client fd).received).values,
        ¬Carries config.password args) →
      other.client fd = server.client fd ∧
        (server.client fd).session.authenticated = false ∧
        (server.db = db ∨
          (server.client fd).closed = true ∧ server.db = first.cleanupClient db fd) ∧
        (other.db = otherDb ∨
          (other.client fd).closed = true ∧ other.db = second.cleanupClient otherDb fd) := by
  refine ⟨?_, ?_⟩
  · intro events fd client accepted
    have guarded := guarded_run (guarded_new locked db) locked first events fd accepted
    rw [config_run] at guarded
    exact guarded
  · intro fd events server other none
    have between : Between config first fd db server :=
      between_run (between_accept config first fd db) events
    have unaware : server.Unaware fd := by
      intro args dispatched
      rw [between.halted.config_eq]
      exact none args (between.halted.dispatched.subset dispatched)
    have start := locked_accept locked db fd
    have twin := twin_run first second
      (twin_withDb second otherDb (({ config, db } : Server σ).accept fd)) start events unaware
    rw [← accept_withDb] at twin
    have self := twin_run first first
      (twin_withDb first db (({ config, db } : Server σ).accept fd)) start events unaware
    rw [← accept_withDb] at self
    have same : other.client fd = server.client fd := twin.1.client
    refine ⟨same, twin.2, self.1.untouched, ?_⟩
    rw [same]
    exact twin.1.untouched

/-- A database that counts the commands it executes. -/
def counter : Database Nat :=
  { execute := fun count _ _ _ => (count + 1, [], ascii "+PONG\r\n")
    cleanupClient := fun count _ => count }

/-- A connection that only sends `PING` to a server with a password. -/
def pinged (count : Nat) : Server Nat :=
  run counter { config := { password := ascii "secret" }, db := count }
    (.accept 7 :: [ClientEvent.readable [.got (ascii "PING\r\n")] [.sent 100]].map (.client 7))

theorem unauthenticated_isolated_ping :
    ((pinged 3).client 7).sent = noauth ∧ ((pinged 8).client 7).sent = noauth ∧
      ((pinged 3).client 7).session.authenticated = false ∧
      (pinged 3).db = 3 ∧ (pinged 8).db = 8 := by
  have requested : (requests ((pinged 3).client 7).received).values = [[ascii "PING"]] := by
    decide +kernel
  have none : ∀ args ∈ (requests ((pinged 3).client 7).received).values,
      ¬Carries (ascii "secret") args := by
    rw [requested]
    intro args isPing carries
    rcases List.mem_singleton.mp isPing with rfl
    rcases carries with ⟨isAuth, _⟩ | ⟨isHello, _⟩
    · exact absurd isAuth (by decide)
    · exact absurd isHello (by decide)
  have isolated := (unauthenticated_isolated { password := ascii "secret" } (by decide) counter
    counter 3 8).2 7 [.readable [.got (ascii "PING\r\n")] [.sent 100]]
  rcases isolated none with ⟨same, unauthenticated, untouched, otherUntouched⟩
  have sent : ((pinged 3).client 7).sent = noauth := by decide +kernel
  unfold pinged at sent ⊢
  refine ⟨sent, (congrArg Client.sent same).trans sent, unauthenticated, ?_, ?_⟩
  · exact untouched.elim id And.right
  · exact otherUntouched.elim id And.right

end Server

end SomniumDB.Net
