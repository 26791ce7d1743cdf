import SomniumDB.Properties.Authentication

/-! # Refused HELLOs

`HELLO` authenticates as it reads its options, so an option at fault behind a correct
`AUTH` leaves the connection authenticated although the reply is an error. Otherwise a
refused `HELLO` or `AUTH` changes nothing. -/

namespace SomniumDB.Net

open Bytes

theorem passwordDiff_self (password : Bytes) : passwordDiff 0 password password = 0 := by
  induction password with
  | nil => rfl
  | cons byte rest induction =>
      rw [passwordDiff, List.headD_cons, UInt8.xor_self, List.tail_cons]
      exact induction

theorem authenticate_default (session : Session) (password : Bytes) :
    authenticate session defaultUser password password =
      ({ session with authenticated := true }, ascii "+OK\r\n") := by
  have accepted : credentialsOk defaultUser password password = true := by
    unfold credentialsOk
    rw [if_neg (not_not.mpr rfl), passwordDiff_self]
    rfl
  unfold authenticate
  rw [accepted]
  rfl

/-- Other credentials change nothing. -/
theorem authenticate_other (session : Session) {user pass password : Bytes}
    (other : ¬ (user = defaultUser ∧ pass = password)) :
    authenticate session user pass password =
      (session, ascii "-WRONGPASS invalid username-password pair\r\n") := by
  have refused : credentialsOk user pass password = false :=
    Bool.eq_false_of_not_eq_true fun accepted => other (credentialsOk_iff _ _ _ accepted)
  unfold authenticate
  rw [refused]
  rfl

/-! ## The options of HELLO -/

inductive HelloOption
  | auth
  | setname
  deriving DecidableEq

/-- Options that are in order, one after another. Without a password any credentials are. -/
inductive InOrder (password : Bytes) : List HelloOption → List Bytes → Prop
  | nil : InOrder password [] []
  | auth {option user pass items texts} (named : isName option (ascii "AUTH") = true)
      (right : password ≠ [] → user = defaultUser ∧ pass = password)
      (others : InOrder password items texts) :
      InOrder password (.auth :: items) (option :: user :: pass :: texts)
  | setname {option name items texts} (named : isName option (ascii "SETNAME") = true)
      (others : InOrder password items texts) :
      InOrder password (.setname :: items) (option :: name :: texts)

/-- The first option is at fault: it is unknown, an argument is missing or the credentials
are wrong. -/
def AtFault (password : Bytes) : List Bytes → Prop
  | [] => False
  | [_] => True
  | [option, _] => isName option (ascii "SETNAME") = false
  | option :: user :: pass :: _ =>
      if isName option (ascii "AUTH") then
        password ≠ [] ∧ ¬ (user = defaultUser ∧ pass = password)
      else isName option (ascii "SETNAME") = false

/-- What options in order make of the connection. -/
def afterOptions (session : Session) (password : Bytes) (items : List HelloOption) : Session :=
  if password ≠ [] ∧ .auth ∈ items then { session with authenticated := true } else session

theorem not_both_names (option : Bytes) (setname : isName option (ascii "SETNAME") = true) :
    isName option (ascii "AUTH") = false := by
  unfold isName at setname ⊢
  rw [decide_eq_true_eq] at setname
  rw [setname]
  decide

theorem helloOptions_setname {password option : Bytes} (session : Session) (name : Bytes)
    (rest : List Bytes) (named : isName option (ascii "SETNAME") = true) :
    helloOptions password session (option :: name :: rest) =
      helloOptions password session rest := by
  cases rest with
  | nil => simp only [helloOptions, named, if_true]
  | cons next others =>
      rw [helloOptions, not_both_names option named, if_neg Bool.false_ne_true, if_pos named]

theorem helloOptions_auth {password option user pass : Bytes} (session : Session)
    (rest : List Bytes) (named : isName option (ascii "AUTH") = true)
    (right : password ≠ [] → user = defaultUser ∧ pass = password) :
    helloOptions password session (option :: user :: pass :: rest) =
      helloOptions password (afterOptions session password [.auth]) rest := by
  rw [helloOptions, if_pos named]
  unfold afterOptions
  by_cases locked : password = []
  · rw [if_pos locked, if_neg fun both => both.1 locked]
  · rcases right locked with ⟨rfl, rfl⟩
    have accepted : (ascii "+OK\r\n").head? ≠ some 45 := by decide
    rw [if_neg locked, authenticate_default, if_pos ⟨locked, List.mem_singleton_self _⟩]
    dsimp only
    rw [if_neg accepted]

theorem afterOptions_cons (session : Session) (password : Bytes) (item : HelloOption)
    (items : List HelloOption) :
    afterOptions (afterOptions session password [item]) password items =
      afterOptions session password (item :: items) := by
  unfold afterOptions
  by_cases locked : password = []
  · simp [locked]
  · cases item with
    | auth => simp [locked]
    | setname => simp [locked]

/-- Options in order are passed over. -/
theorem helloOptions_inOrder {password : Bytes} {items : List HelloOption} {front : List Bytes}
    (inOrder : InOrder password items front) (session : Session) (rest : List Bytes) :
    helloOptions password session (front ++ rest) =
      helloOptions password (afterOptions session password items) rest := by
  induction inOrder generalizing session with
  | nil => simp [afterOptions]
  | auth named right others induction =>
      simp only [List.cons_append]
      rw [helloOptions_auth session _ named right, induction, afterOptions_cons]
  | setname named others induction =>
      simp only [List.cons_append]
      rw [helloOptions_setname session _ _ named, induction, ← afterOptions_cons]
      simp [afterOptions]

/-- An option at fault ends the options, and changes nothing itself. -/
theorem helloOptions_atFault {password : Bytes} {rest : List Bytes}
    (fault : AtFault password rest) (session : Session) :
    ∃ err, helloOptions password session rest = (session, some err) ∧ err.head? = some 45 := by
  have syntaxHead (option : Bytes) : (helloSyntax option).head? = some 45 := by
    unfold helloSyntax
    have start : ascii "-ERR Syntax error in HELLO option '" =
        45 :: ascii "ERR Syntax error in HELLO option '" := by decide
    rw [start]
    rfl
  match rest, fault with
  | [option], _ => exact ⟨_, rfl, syntaxHead option⟩
  | [option, _], fault =>
      change isName option (ascii "SETNAME") = false at fault
      rw [helloOptions, fault, if_neg Bool.false_ne_true]
      exact ⟨_, rfl, syntaxHead option⟩
  | option :: user :: pass :: others, fault =>
      change if isName option (ascii "AUTH") then _ else _ at fault
      rw [helloOptions]
      by_cases named : isName option (ascii "AUTH") = true
      · rw [if_pos named] at fault
        rw [if_pos named, if_neg fault.1, authenticate_other session fault.2]
        exact ⟨_, if_pos rfl, rfl⟩
      · rw [if_neg named] at fault
        rw [if_neg named, fault, if_neg Bool.false_ne_true]
        exact ⟨_, rfl, syntaxHead option⟩

/-- Any options are in order up to one that is at fault, or to their end. -/
theorem options_cases (password : Bytes) : ∀ options : List Bytes,
    ∃ items front rest, options = front ++ rest ∧ InOrder password items front ∧
      (rest = [] ∨ AtFault password rest)
  | [] => ⟨[], [], [], rfl, .nil, .inl rfl⟩
  | [option] => ⟨[], [], [option], rfl, .nil, .inr trivial⟩
  | [option, name] => by
      cases named : isName option (ascii "SETNAME") with
      | true => exact ⟨_, _, [], rfl, .setname named .nil, .inl rfl⟩
      | false => exact ⟨[], [], _, rfl, .nil, .inr named⟩
  | option :: user :: pass :: others => by
      cases named : isName option (ascii "AUTH") with
      | true =>
          by_cases right : password ≠ [] → user = defaultUser ∧ pass = password
          · rcases options_cases password others with ⟨items, front, rest, rfl, inOrder, left⟩
            exact ⟨_, _, rest, rfl, .auth named right inOrder, left⟩
          · refine ⟨[], [], _, rfl, .nil, .inr ?_⟩
            change if isName option (ascii "AUTH") then _ else _
            rw [if_pos named]
            exact Classical.not_imp.mp right
      | false =>
          cases set : isName option (ascii "SETNAME") with
          | true =>
              rcases options_cases password (pass :: others) with
                ⟨items, front, rest, same, inOrder, left⟩
              refine ⟨_, option :: user :: front, rest, ?_, .setname set inOrder, left⟩
              rw [same]
              rfl
          | false =>
              refine ⟨[], [], _, rfl, .nil, .inr ?_⟩
              change if isName option (ascii "AUTH") then _ else _
              rw [named, if_neg Bool.false_ne_true]
              exact set

/-! ## Errors and successes -/

/-- The protocol that a `HELLO` asks for: `protocol` is 2 or 3. -/
def Asks (session : Session) (args : List Bytes) (protocol : Int) : Prop :=
  (protocol = 2 ∨ protocol = 3) ∧
    match args with
    | _ :: version :: _ => fromCharsInt version = some protocol
    | _ => protocol = if session.resp3 then 3 else 2

/-- An error leaves the connection as it was; a success authenticates it and sets the
protocol that was asked for. -/
structure Atomic (session : Session) (fd : Nat) (args : List Bytes) (password : Bytes) : Prop where
  refusedAuth : (auth session args password).2.head? = some 45 → (auth session args password).1 = session
  refusedHello : (hello session fd args password).2.head? = some 45 →
    (hello session fd args password).1 = session
  succeeded : (hello session fd args password).2.head? ≠ some 45 →
    (hello session fd args password).1.authenticated = true ∧
      ∃ protocol, Asks session args protocol ∧
        (hello session fd args password).1.resp3 = decide (protocol = 3)

/-- A correct `AUTH` stands before an option at fault, on a connection that is not yet
authenticated. -/
def AuthBeforeFault (session : Session) (args : List Bytes) (password : Bytes) : Prop :=
  session.authenticated = false ∧ password ≠ [] ∧
    (∃ protocol, Asks session args protocol) ∧
      ∃ items front rest, args.drop 2 = front ++ rest ∧ InOrder password items front ∧
        .auth ∈ items ∧ AtFault password rest

theorem authenticate_refused (session : Session) (user pass password : Bytes)
    (refused : (authenticate session user pass password).2.head? = some 45) :
    (authenticate session user pass password).1 = session := by
  by_cases right : user = defaultUser ∧ pass = password
  · rcases right with ⟨rfl, rfl⟩
    rw [authenticate_default] at refused
    have done : (ascii "+OK\r\n").head? ≠ some 45 := by decide
    exact absurd refused done
  · rw [authenticate_other session right]

theorem auth_refused (session : Session) (args : List Bytes) (password : Bytes) :
    (auth session args password).2.head? = some 45 →
      (auth session args password).1 = session := by
  unfold auth
  by_cases few : args.length ≠ 2 ∧ args.length ≠ 3
  · rw [if_pos few]
    exact fun _ => rfl
  · rw [if_neg few]
    by_cases free : password = []
    · rw [if_pos free]
      exact fun _ => rfl
    · rw [if_neg free]
      exact authenticate_refused session _ _ password

theorem helloRefused_head : helloRefused.head? = some 45 := by decide

theorem helloReply_head (fd : Nat) (resp3 : Bool) : (helloReply fd resp3).head? ≠ some 45 := by
  have first : (if resp3 then ascii "%7\r\n" else ascii "*14\r\n").head? ≠ some 45 ∧
      (if resp3 then ascii "%7\r\n" else ascii "*14\r\n") ≠ [] := by
    cases resp3 <;> decide
  unfold helloReply
  simp only [List.append_assoc]
  rw [List.head?_append_of_ne_nil _ first.2]
  exact first.1

theorem helloDone_spec (session : Session) (fd : Nat) (protocol : Int) :
    ((helloDone session fd protocol).2.head? = some 45 ∧ session.authenticated = false ∧
        (helloDone session fd protocol).1 = session) ∨
      ((helloDone session fd protocol).2.head? ≠ some 45 ∧ session.authenticated = true ∧
        (helloDone session fd protocol).1 = { session with resp3 := protocol = 3 }) := by
  unfold helloDone
  cases authenticated : session.authenticated with
  | false => exact .inl ⟨helloRefused_head, rfl, rfl⟩
  | true => exact .inr ⟨helloReply_head fd _, rfl, rfl⟩

/-- With a protocol that is supported the options are read. -/
theorem hello_asks {session : Session} {args : List Bytes} {protocol : Int}
    (asks : Asks session args protocol) (fd : Nat) (password : Bytes) :
    hello session fd args password =
      match helloOptions password session (args.drop 2) with
      | (changed, some reply) => (changed, reply)
      | (changed, none) => helloDone changed fd protocol := by
  rcases asks with ⟨supported, asked⟩
  match args, asked with
  | [], asked =>
      change protocol = _ at asked
      rw [asked]
      rfl
  | [_], asked =>
      change protocol = _ at asked
      rw [asked]
      rfl
  | _ :: version :: options, asked =>
      change fromCharsInt version = some protocol at asked
      unfold hello
      dsimp only
      rw [asked]
      dsimp only
      rw [if_neg (by omega)]
      rfl

theorem hello_fault {session : Session} {args : List Bytes} {protocol : Int}
    (asks : Asks session args protocol) (fd : Nat) {password : Bytes} {items : List HelloOption}
    {front rest : List Bytes} (options : args.drop 2 = front ++ rest)
    (inOrder : InOrder password items front) (fault : AtFault password rest) :
    (hello session fd args password).1 = afterOptions session password items ∧
      (hello session fd args password).2.head? = some 45 := by
  rcases helloOptions_atFault fault (afterOptions session password items) with ⟨err, stopped, minus⟩
  rw [hello_asks asks, options, helloOptions_inOrder inOrder, stopped]
  exact ⟨rfl, minus⟩

theorem hello_inOrder {session : Session} {args : List Bytes} {protocol : Int}
    (asks : Asks session args protocol) (fd : Nat) {password : Bytes} {items : List HelloOption}
    (inOrder : InOrder password items (args.drop 2)) :
    hello session fd args password =
      helloDone (afterOptions session password items) fd protocol := by
  have passed := helloOptions_inOrder inOrder session []
  rw [List.append_nil, helloOptions] at passed
  rw [hello_asks asks, passed]

/-- A protocol that is not supported, or no number, is refused at once. -/
theorem hello_asksNot {session : Session} {args : List Bytes}
    (none : ¬ ∃ protocol, Asks session args protocol) (fd : Nat) (password : Bytes) :
    (hello session fd args password).1 = session ∧
      (hello session fd args password).2.head? = some 45 := by
  have current : (if session.resp3 then (3 : Int) else 2) = 2 ∨
      (if session.resp3 then (3 : Int) else 2) = 3 := by
    cases session.resp3
    · exact .inl rfl
    · exact .inr rfl
  match args, none with
  | [], none => exact absurd ⟨_, current, rfl⟩ none
  | [_], none => exact absurd ⟨_, current, rfl⟩ none
  | _ :: version :: options, none =>
      unfold hello
      dsimp only
      cases number : fromCharsInt version with
      | none => exact ⟨rfl, rfl⟩
      | some protocol =>
          have unsupported : protocol ≠ 2 ∧ protocol ≠ 3 := by
            rw [← not_or]
            exact fun supported => none ⟨protocol, supported, number⟩
          dsimp only
          rw [if_pos unsupported]
          exact ⟨rfl, rfl⟩

theorem afterOptions_authenticated {session : Session} {password : Bytes}
    {items : List HelloOption} (same : (afterOptions session password items).authenticated = false) :
    afterOptions session password items = session := by
  unfold afterOptions at same ⊢
  by_cases changes : password ≠ [] ∧ HelloOption.auth ∈ items
  · rw [if_pos changes]
    rw [if_pos changes] at same
    cases same
  · rw [if_neg changes]

/-- On an authenticated connection, or without an `AUTH`, the options change nothing. -/
theorem afterOptions_unchanged {session : Session} {password : Bytes} {items : List HelloOption}
    (idle : session.authenticated = true ∨ password = [] ∨ .auth ∉ items) :
    afterOptions session password items = session := by
  unfold afterOptions
  by_cases changes : password ≠ [] ∧ HelloOption.auth ∈ items
  · rw [if_pos changes]
    rcases idle with authenticated | none | absent
    · rw [← authenticated]
    · exact absurd none changes.1
    · exact absurd changes.2 absent
  · rw [if_neg changes]

/-- A refused `HELLO` or `AUTH` changes nothing, and a successful `HELLO` does what it was
asked, unless a correct `AUTH` stands before an option at fault. -/
theorem atomic_iff (session : Session) (fd : Nat) (args : List Bytes) (password : Bytes) :
    Atomic session fd args password ↔ ¬ AuthBeforeFault session args password := by
  constructor
  · rintro atomic ⟨locked, protected_, ⟨protocol, asks⟩, items, front, rest, options, inOrder,
      member, fault⟩
    rcases hello_fault asks fd options inOrder fault with ⟨after, minus⟩
    have unchanged := atomic.refusedHello minus
    rw [after] at unchanged
    have authenticated : (afterOptions session password items).authenticated = true := by
      unfold afterOptions
      rw [if_pos ⟨protected_, member⟩]
    rw [unchanged, locked] at authenticated
    cases authenticated
  · intro allowed
    have auth := auth_refused session args password
    by_cases asked : ∃ protocol, Asks session args protocol
    · rcases asked with ⟨protocol, asks⟩
      rcases options_cases password (args.drop 2) with
        ⟨items, front, rest, options, inOrder, empty | fault⟩
      · rw [empty, List.append_nil] at options
        rw [← options] at inOrder
        have done := hello_inOrder asks fd inOrder
        rcases helloDone_spec (afterOptions session password items) fd protocol with
          ⟨minus, locked, after⟩ | ⟨notMinus, authenticated, after⟩
        · rw [← done] at minus after
          refine ⟨auth, fun _ => ?_, fun succeeded => absurd minus succeeded⟩
          rw [after, afterOptions_authenticated locked]
        · rw [← done] at notMinus after
          refine ⟨auth, fun refused => absurd refused notMinus, fun _ => ?_⟩
          rw [after]
          exact ⟨authenticated, protocol, asks, rfl⟩
      · rcases hello_fault asks fd options inOrder fault with ⟨after, minus⟩
        refine ⟨auth, fun _ => ?_, fun succeeded => absurd minus succeeded⟩
        rw [after]
        refine afterOptions_unchanged ?_
        by_contra busy
        rw [not_or, not_or, not_not] at busy
        exact allowed ⟨Bool.eq_false_of_not_eq_true busy.1, busy.2.1, ⟨protocol, asks⟩, items,
          front, rest, options, inOrder, busy.2.2, fault⟩
    · rcases hello_asksNot asked fd password with ⟨after, minus⟩
      exact ⟨auth, fun _ => after, fun succeeded => absurd minus succeeded⟩

/-- `HELLO 3 AUTH default pw FOO` is a syntax error, and authenticates. -/
theorem refused_hello_authenticates :
    let args := [ascii "HELLO", ascii "3", ascii "AUTH", ascii "default", ascii "pw", ascii "FOO"]
    let session : Session := { authenticated := false }
    (hello session 7 args (ascii "pw")).2 =
        ascii "-ERR Syntax error in HELLO option 'FOO'\r\n" ∧
      (hello session 7 args (ascii "pw")).1.authenticated = true ∧
        ¬ Atomic session 7 args (ascii "pw") := by
  refine ⟨by decide, by decide, fun atomic => ?_⟩
  exact absurd (congrArg Session.authenticated (atomic.refusedHello (by decide))) (by decide)

end SomniumDB.Net
