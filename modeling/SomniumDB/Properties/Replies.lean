import SomniumDB.Abstract.Executed
import SomniumDB.Core.ErrorLines
import SomniumDB.Core.Service

/-! # Every reply is one value

What `execute` returns is exactly one value of the protocol, or one for each channel of a
`SUBSCRIBE` or an `UNSUBSCRIBE`. Two error lines repeat bytes of the request, and a line
break among these is the only way in which this can fail. -/

namespace SomniumDB

open Bytes FsUtil PrefixCode Resp

theorem wrongArguments_eq (command : Bytes) :
    wrongArguments command =
      45 :: (ascii "ERR Wrong number of arguments for " ++ command) ++ crlf := by
  have text : ascii "-ERR Wrong number of arguments for " =
      45 :: ascii "ERR Wrong number of arguments for " := by decide
  rw [wrongArguments, text]
  rfl

theorem value_wrongArguments_iff {resp3 : Bool} {command : Bytes} :
    Value resp3 (wrongArguments command) ↔ OneLine command := by
  rw [wrongArguments_eq]
  exact value_error_iff (by decide)

/-- A fixed error line. -/
theorem value_errorText {resp3 : Bool} (text : String) (line : ErrorLine (ascii text)) :
    Value resp3 (ascii text) :=
  line.value

/-- A fixed status line. -/
theorem value_statusText {resp3 : Bool} (text : String) (line : StatusLine (ascii text)) :
    Value resp3 (ascii text) :=
  line.value

theorem value_nil (resp3 : Bool) : Value resp3 (nil resp3) := by
  cases resp3 with
  | false => exact .absent
  | true => exact .null

theorem value_integer {resp3 : Bool} (number : Int) : Value resp3 (integer number) :=
  .integer number

namespace Db

section Handlers

variable {resp3 : Bool} (db : Db) (now : Nat) (name : Bytes)

theorem value_roomsFull : Value resp3 roomsFull :=
  value_errorText _ (by decide)

theorem value_ok : Value resp3 (ascii "+OK\r\n") :=
  value_statusText _ (by decide)

theorem value_ignoredStale : Value resp3 ignoredStale :=
  value_statusText _ (by decide)

theorem value_handleGet (args : List Bytes) :
    Value resp3 (db.handleGet now resp3 name args).2 := by
  unfold handleGet Keyspace.handleGet
  simp only [Keyspace.ofDb]
  match args with
  | [_, key] =>
      dsimp only
      cases (db.lookup now name key).2 with
      | none => exact value_nil resp3
      | some record => exact .bulk _
  | [] | [_] | _ :: _ :: _ :: _ => exact value_wrongArguments_iff.mpr (by decide)

theorem value_handleSet (args : List Bytes) :
    Value resp3 (db.handleSet now resp3 name args).2 := by
  unfold handleSet Keyspace.handleSet
  simp only [Keyspace.ofDb]
  match args with
  | head :: key :: _ :: options =>
      dsimp only
      cases refused : setOptions now {} options with
      | error _ => exact (setOptions_error refused).value
      | ok options =>
          dsimp only
          by_cases conditional : (options.nx && (db.lookup now name key).2.isSome || options.xx &&
              (db.lookup now name key).2.isNone) = true
          · rw [if_pos conditional]
            exact value_nil resp3
          · rw [if_neg conditional]
            exact value_ok
  | [] | [_] | [_, _] => exact value_wrongArguments_iff.mpr (by decide)

theorem value_handleMset (args : List Bytes) :
    Value resp3 (db.handleMset now name args).2 := by
  unfold handleMset Keyspace.handleMset
  simp only [Keyspace.ofDb]
  by_cases malformed : args.length < 3 ∨ args.length % 2 = 0
  · rw [if_pos malformed]
    exact value_wrongArguments_iff.mpr (by decide)
  · rw [if_neg malformed]
    exact value_ok

/-- The elements written so far are as many as the keys that have been read. -/
theorem value_mgetLoop (out : Bytes) (keys : List Bytes) (count : Nat) (body : Bytes)
    (holds : Holds (Value resp3) count body)
    (built : out = sized 42 (count + keys.length) ++ body) :
    Value resp3 (db.mgetLoop now resp3 name out keys).2 := by
  induction keys generalizing db out count body with
  | nil =>
      unfold mgetLoop Keyspace.mgetLoop
      rw [built]
      exact value_array holds
  | cons key rest induction =>
      have next : ∀ element, Value resp3 element → out ++ element =
          sized 42 ((count + 1) + rest.length) ++ (body ++ element) ∧
            Holds (Value resp3) (count + 1) (body ++ element) := by
        intro element value
        refine ⟨?_, holds.append (.one value)⟩
        rw [built, List.length_cons, List.append_assoc, Nat.add_assoc, Nat.add_comm 1]
      unfold mgetLoop Keyspace.mgetLoop
      simp only [Keyspace.ofDb]
      rcases db.lookup now name key with ⟨_, _ | record⟩
      · rcases next _ (value_nil resp3) with ⟨grown, more⟩
        exact induction _ _ _ _ more grown
      · dsimp only
        by_cases long : maxReply < out.length + record.value.length
        · rw [if_pos long]
          exact value_errorText _ (by decide)
        · rw [if_neg long]
          rcases next _ (.bulk record.value) with ⟨grown, more⟩
          exact induction _ _ _ _ more grown

theorem value_handleMget (args : List Bytes) :
    Value resp3 (db.handleMget now resp3 name args).2 := by
  unfold handleMget Keyspace.handleMget
  simp only [Keyspace.ofDb]
  match args with
  | _ :: key :: rest =>
      refine db.value_mgetLoop now name _ (key :: rest) 0 [] ⟨[], rfl, by simp, rfl⟩ ?_
      rw [List.length_cons, Nat.zero_add, List.append_nil]
      rfl
  | [] | [_] => exact value_wrongArguments_iff.mpr (by decide)

theorem value_handleExists (args : List Bytes) :
    Value resp3 (db.handleExists now name args).2 := by
  unfold handleExists Keyspace.handleExists
  simp only [Keyspace.ofDb]
  match args with
  | _ :: _ :: _ => exact value_integer _
  | [] | [_] => exact value_wrongArguments_iff.mpr (by decide)

theorem value_handleDel (args : List Bytes) :
    Value resp3 (db.handleDel now name args).2 := by
  unfold handleDel Keyspace.handleDel
  simp only [Keyspace.ofDb]
  match args with
  | _ :: _ :: _ => exact value_integer _
  | [] | [_] => exact value_wrongArguments_iff.mpr (by decide)

theorem value_handleTtl {args : List Bytes} (millis : Bool)
    (line : OneLine (args.head?.getD [])) :
    Value resp3 (db.handleTtl now name args millis).2 := by
  unfold handleTtl Keyspace.handleTtl
  simp only [Keyspace.ofDb]
  match args with
  | [head, key] =>
      dsimp only
      rcases db.lookup now name key with ⟨found, _ | record⟩
      · exact value_integer _
      · dsimp only
        by_cases same : record.expireAt = 0
        · rw [if_pos same]
          exact value_integer _
        · rw [if_neg same]
          exact value_integer _
  | [] | [_] | _ :: _ :: _ :: _ => exact value_wrongArguments_iff.mpr line

/-- The option that an `EXPIRE` repeats in its error line. -/
def echoedOption (args : List Bytes) (scale : Int) : Option Bytes :=
  if (if scale ≠ 0 then args.length < 3 else args.length ≠ 2) then none
  else (args.drop 3).find? unsupported

theorem value_handleExpire_iff {args : List Bytes} (scale : Int)
    (line : OneLine (args.head?.getD [])) :
    Value resp3 (db.handleExpire now name args scale).2 ↔
      ∀ option, echoedOption args scale = some option → OneLine option := by
  unfold handleExpire Keyspace.handleExpire echoedOption
  simp only [Keyspace.ofDb]
  by_cases shape : (if scale ≠ 0 then args.length < 3 else args.length ≠ 2)
  · rw [if_pos shape, if_pos shape]
    exact iff_of_true (value_wrongArguments_iff.mpr line) (by simp)
  · rw [if_neg shape, if_neg shape]
    have spec := expireOptions_spec {} (args.drop 3)
    cases found : (args.drop 3).find? unsupported with
    | some option =>
        rw [found] at spec
        dsimp only at spec
        rw [spec]
        have front : ascii "-ERR Unsupported option " =
            45 :: ascii "ERR Unsupported option " := by decide
        have plain : OneLine (ascii "ERR Unsupported option ") := by decide
        rw [front]
        refine (value_error_iff plain).trans ⟨?_, fun each => each option rfl⟩
        rintro here _ ⟨⟩
        exact here
    | none =>
        rw [found] at spec
        rcases spec with ⟨options, accepted⟩
        refine iff_of_true ?_ (by simp)
        rw [accepted]
        dsimp only
        by_cases clash : (options.nx && (options.xx || options.gt || options.lt)) = true
        · rw [if_pos clash]
          exact value_errorText _ (by decide)
        · rw [if_neg clash]
          by_cases both : (options.gt && options.lt) = true
          · rw [if_pos both]
            exact value_errorText _ (by decide)
          · rw [if_neg both]
            rcases refused : expireDeadline now scale args with _ | ⟨n, expireAt⟩
            · exact (expireDeadline_error refused).value
            · rcases db.lookup now name (args[1]?.getD []) with ⟨found, _ | record⟩
              · exact value_integer _
              · dsimp only
                by_cases unmoved : scale = 0 ∧ record.expireAt = 0 ∨
                    expireRefused options record expireAt = true
                · rw [if_pos unmoved]
                  exact value_integer _
                · rw [if_neg unmoved]
                  by_cases spent : scale ≠ 0 ∧ n ≤ 0
                  · rw [if_pos spent]
                    exact value_handleDel _ _ _ _
                  · rw [if_neg spent]
                    exact value_integer _

theorem value_mergeInto (key value : Bytes) (args : List Bytes) (expireAt : Option Int)
    (version : Version) :
    Value resp3 (db.mergeInto now name key value args expireAt version).2 := by
  unfold mergeInto Keyspace.mergeInto
  simp only [Keyspace.ofDb]
  by_cases stale :
      (db.lookup now name key).1.stale name key (db.lookup now name key).2 version = true
  · rw [if_pos stale]
    exact value_ignoredStale
  · rw [if_neg stale]
    exact value_statusText _ (by decide)

theorem value_handleCrdtmerge (args : List Bytes) :
    Value resp3 (db.handleCrdtmerge now name args).2 := by
  unfold handleCrdtmerge Keyspace.handleCrdtmerge
  simp only [Keyspace.ofDb]
  match args with
  | [head, key, _, tsArg, nodeArg] =>
      dsimp only
      rcases refused : db.incomingVersion now tsArg nodeArg with _ | ⟨_, _⟩
      · exact (incomingVersion_error refused).value
      · exact value_mergeInto _ _ _ _ _ _ _ _
  | [head, key, _, tsArg, nodeArg, expireArg] =>
      dsimp only
      cases parseI64 expireArg with
      | none => exact value_errorText _ (by decide)
      | some expireAt =>
          dsimp only
          by_cases negative : expireAt < 0
          · rw [if_pos negative]
            exact value_errorText _ (by decide)
          · rw [if_neg negative]
            rcases refused : db.incomingVersion now tsArg nodeArg with _ | ⟨_, _⟩
            · exact (incomingVersion_error refused).value
            · exact value_mergeInto _ _ _ _ _ _ _ _
  | [] | [_] | [_, _] | [_, _, _] | [_, _, _, _] | _ :: _ :: _ :: _ :: _ :: _ :: _ :: _ =>
      exact value_errorText _ (by decide)

theorem value_handleCrdtdel (args : List Bytes) :
    Value resp3 (db.handleCrdtdel now name args).2 := by
  unfold handleCrdtdel Keyspace.handleCrdtdel
  simp only [Keyspace.ofDb]
  match args with
  | [head, key, tsArg, nodeArg] =>
      dsimp only
      rcases refused : db.incomingVersion now tsArg nodeArg with _ | ⟨observed, version⟩
      · exact (incomingVersion_error refused).value
      · unfold deleteFrom Keyspace.deleteFrom
        simp only [Keyspace.ofDb]
        by_cases stale :
            (observed.lookup now name key).1.stale name key (observed.lookup now name key).2 version =
            true
        · rw [if_pos stale]
          exact value_ignoredStale
        · rw [if_neg stale]
          exact value_statusText _ (by decide)
  | [] | [_] | [_, _] | [_, _, _] | _ :: _ :: _ :: _ :: _ :: _ =>
      exact value_errorText _ (by decide)

/-- Whether the handler of a command in a room replies with a value. -/
theorem value_runInRoom_iff {args : List Bytes} {first : Bytes}
    (head : args.head? = some first) {kind : RoomCommand}
    (named : Command.named (upper first) = .inRoom kind) :
    Value resp3 (db.runInRoom now resp3 name args kind).2 ↔
      ∀ option, ((kind = .expire ∧ echoedOption args 1000 = some option) ∨
        (kind = .pexpire ∧ echoedOption args 1 = some option)) → OneLine option := by
  have line : ∀ known, OneLine known → kind ≠ .unknown →
      (∀ other, (other, Command.inRoom kind) ∈ Command.table → other = known) →
        OneLine (args.head?.getD []) := by
    intro known fine notUnknown listed
    rw [head]
    apply oneLine_of_upper
    rw [Option.getD_some, listed _ (mem_table_of_named notUnknown named)]
    exact fine
  cases kind with
  | get => exact iff_of_true (value_handleGet db now name args) (by simp)
  | set => exact iff_of_true (value_handleSet db now name args) (by simp)
  | del => exact iff_of_true (value_handleDel db now name args) (by simp)
  | crdtmerge => exact iff_of_true (value_handleCrdtmerge db now name args) (by simp)
  | crdtdel => exact iff_of_true (value_handleCrdtdel db now name args) (by simp)
  | mget => exact iff_of_true (value_handleMget db now name args) (by simp)
  | mset => exact iff_of_true (value_handleMset db now name args) (by simp)
  | exist => exact iff_of_true (value_handleExists db now name args) (by simp)
  | expire =>
      have head := line (ascii "EXPIRE") (by decide) (by simp) (by simp [Command.table])
      exact (value_handleExpire_iff db now name 1000 head).trans (by simp)
  | pexpire =>
      have head := line (ascii "PEXPIRE") (by decide) (by simp) (by simp [Command.table])
      exact (value_handleExpire_iff db now name 1 head).trans (by simp)
  | persist =>
      have head := line (ascii "PERSIST") (by decide) (by simp) (by simp [Command.table])
      refine iff_of_true ((value_handleExpire_iff db now name 0 head).mpr ?_) (by simp)
      -- `PERSIST` has no options: with two arguments there are none to read.
      intro option echoed
      by_cases two : args.length = 2
      · simp [echoedOption, two, List.drop_of_length_le] at echoed
      · simp [echoedOption, two] at echoed
  | ttl =>
      have head := line (ascii "TTL") (by decide) (by simp) (by simp [Command.table])
      exact iff_of_true (value_handleTtl db now name false head) (by simp)
  | pttl =>
      have head := line (ascii "PTTL") (by decide) (by simp) (by simp [Command.table])
      exact iff_of_true (value_handleTtl db now name true head) (by simp)
  | save => exact iff_of_true (value_statusText _ (by decide)) (by simp)
  | unknown => exact iff_of_true (value_errorText _ (by decide)) (by simp)

/-! ## Rooms -/

theorem holds_flatMap {α : Type} (entries : List α) (write : α → Bytes)
    (each : ∀ entry, Value resp3 (write entry)) :
    Holds (Value resp3) entries.length (entries.flatMap write) := by
  refine ⟨entries.map write, List.length_map _, ?_, rfl⟩
  intro word member
  rcases List.mem_map.mp member with ⟨entry, _, rfl⟩
  exact each entry

theorem value_mapHeader {pairs : Nat} {body : Bytes}
    (holds : Holds (Value resp3) (2 * pairs) body) : Value resp3 (mapHeader resp3 pairs ++ body) := by
  cases resp3 with
  | false => exact value_array holds
  | true =>
      rcases holds with ⟨values, length, each, rfl⟩
      exact .map pairs values length each

theorem value_roomInfo (room : Room) : Value resp3 (roomInfo room resp3) := by
  unfold roomInfo
  dsimp only
  simp only [List.append_assoc]
  have text : ∀ payload, Holds (Value resp3) 1 (Resp.bulk payload) := fun _ => .one (.bulk _)
  have number : ∀ value, Holds (Value resp3) 1 (integer value) := fun _ => .one (value_integer _)
  exact value_mapHeader ((text _).append ((text _).append ((text _).append ((number _).append
    ((text _).append ((number _).append ((text _).append (number _))))))))

theorem wakeRoom_error {db : Db} {now : Nat} {name err : Bytes}
    (refused : (db.wakeRoom now name).2 = some err) : ErrorLine err := by
  unfold wakeRoom at refused
  by_cases invalid : (!validRoomName name) = true
  · rw [if_pos invalid] at refused
    cases refused
    decide
  · rw [if_neg invalid] at refused
    by_cases crowded : name ∉ db.rooms ∧ db.config.maxRooms ≤ db.rooms.toPairs.length
    · rw [if_pos crowded] at refused
      cases refused
      decide
    · rw [if_neg crowded] at refused
      dsimp only at refused
      by_cases same : ((db.findRoom name).activate now name false).2 = true
      · rw [if_pos same] at refused
        cases refused
      · rw [if_neg same] at refused
        cases refused
        decide

theorem value_handleRoom (clientFd : Nat) (args : List Bytes) :
    Value resp3 (db.handleRoom now clientFd args).2 := by
  unfold handleRoom
  match args with
  | [head, name] =>
      dsimp only
      rcases refused : db.wakeRoom now name with ⟨_, _ | _⟩
      · exact value_ok
      · exact (wakeRoom_error (congrArg Prod.snd refused)).value
  | [] | [_] | _ :: _ :: _ :: _ => exact value_wrongArguments_iff.mpr (by decide)

/-- A command of the family `ROOM.*` with a wrong number of arguments repeats its name. -/
theorem value_handleRoomAdmin_iff (command : Bytes) (args : List Bytes) :
    Value resp3 (db.handleRoomAdmin now resp3 command args).2 ↔
      (command ≠ ascii "ROOMS" ∧ args.length ≠ 2 → OneLine command) := by
  unfold handleRoomAdmin
  by_cases all : command = ascii "ROOMS"
  · rw [if_pos all]
    refine iff_of_true ?_ (by simp [all])
    exact value_array (holds_flatMap db.rooms.toPairs _ fun entry => .bulk entry.1)
  · rw [if_neg all]
    split
    · rename_i name
      refine iff_of_true ?_ (by simp)
      by_cases isWake : command = ascii "ROOM.WAKE"
      · rw [if_pos isWake]
        dsimp only
        cases refused : (db.wakeRoom now name).2 with
        | none => exact value_ok
        | some err => exact (wakeRoom_error refused).value
      · rw [if_neg isWake]
        by_cases unknown : name ∉ db.rooms
        · rw [if_pos unknown]
          exact value_errorText _ (by decide)
        · rw [if_neg unknown]
          by_cases isHibernate : command = ascii "ROOM.HIBERNATE"
          · rw [if_pos isHibernate]
            by_cases same : name = defaultRoom
            · rw [if_pos same]
              exact value_errorText _ (by decide)
            · rw [if_neg same]
              exact value_ok
          · rw [if_neg isHibernate]
            by_cases isInfo : command = ascii "ROOM.INFO"
            · rw [if_pos isInfo]
              exact value_roomInfo _
            · rw [if_neg isInfo]
              exact value_errorText _ (by decide)
    · rename_i notTwo
      have count : args.length ≠ 2 := by
        intro two
        rcases List.length_eq_two.mp two with ⟨first, second, rfl⟩
        exact notTwo _ _ rfl
      simpa [all, count] using value_wrongArguments_iff

theorem value_handleReplfrontier (args : List Bytes) :
    Value resp3 (db.handleReplfrontier now args).2 := by
  unfold handleReplfrontier
  dsimp only
  match args with
  | [head, nodeArg, frontierArg] =>
      dsimp only
      split
      · split
        · exact value_errorText _ (by decide)
        · exact value_ok
      · exact value_errorText _ (by decide)
  | [] | [_] | [_, _] | _ :: _ :: _ :: _ :: _ => exact value_errorText _ (by decide)

theorem value_startBackgroundRewrite : Value resp3 db.startBackgroundRewrite.2 := by
  unfold startBackgroundRewrite
  cases db.rewriteChild with
  | none => exact value_statusText _ (by decide)
  | some _ => exact value_errorText _ (by decide)

theorem value_handlePing (args : List Bytes) (subscribed : Bool) :
    Value resp3 (handlePing args subscribed) := by
  unfold handlePing
  by_cases many : 2 < args.length
  · rw [if_pos many]
    exact value_wrongArguments_iff.mpr (by decide)
  · rw [if_neg many]
    by_cases listening : subscribed = true
    · rw [if_pos listening]
      have pong : ascii "*2\r\n$4\r\npong\r\n" = sized 42 2 ++ Resp.bulk (ascii "pong") := by decide
      rw [pong, List.append_assoc]
      exact value_array ((Holds.one (.bulk _)).append (.one (.bulk _)))
    · rw [if_neg listening]
      cases args[1]? with
      | none => exact value_statusText _ (by decide)
      | some payload => exact .bulk payload

end Handlers

/-! ## The whole command -/

variable {db : Db}

/-- Whether a room opens does not depend on a rewrite that ends or starts. -/
theorem opens_beginCommand (db : Db) (call : Call) (name : Bytes) :
    (db.beginCommand call).Opens name ↔ db.Opens name := by
  have finished : db.finishBackgroundRewrite.Opens name ↔ db.Opens name := by
    rcases finishBackgroundRewrite_cases db with same | ⟨_, _, _, ⟨_, dropped⟩ | ⟨_, committed⟩⟩
    · rw [same]
    · rw [dropped]
      rfl
    · rw [committed]
      rfl
  rcases beginCommand_cases db call with same | ⟨idle, forked⟩
  · rw [same]
    exact finished
  · rw [forked]
    refine Iff.trans ?_ finished
    generalize db.finishBackgroundRewrite = settled at idle
    cases state : (settled.room name).state with
    | active =>
        refine iff_of_true (.inl ?_) (.inl state)
        unfold startBackgroundRewrite
        rw [idle]
        exact state
    | sleeping =>
        have file : settled.discardActiveSnapshots.snapshots.lookup name =
            settled.snapshots.lookup name := by
          unfold discardActiveSnapshots
          rw [FiniteMap.lookup_filter]
          cases settled.snapshots.lookup name with
          | none => rfl
          | some keys => simp [state]
        have loads : ∀ other : Db, other.wakeupRoom name =
            ((other.snapshots.lookup name).map fun keys => keys.mapValues Record.normalized).getD
              (other.keysOf name) := by
          intro other
          unfold wakeupRoom
          cases other.snapshots.lookup name <;> rfl
        have loaded : settled.startBackgroundRewrite.1.wakeupRoom name =
            settled.wakeupRoom name := by
          rw [loads, loads, ← file]
          unfold startBackgroundRewrite
          rw [idle]
          rfl
        unfold Opens
        rw [loaded]
        unfold startBackgroundRewrite
        rw [idle]
        rfl

/-- The bytes of a call that an error line of its reply repeats: the name of a command
`ROOM.*` with a wrong number of arguments, or the option that an `EXPIRE` or a `PEXPIRE`
does not know, when the room of the client opens. -/
def Echoes (db : Db) (call : Call) (text : Bytes) : Prop :=
  ∃ first, call.args.head? = some first ∧ call.subscribed = false ∧
    ((Command.named (upper first) = .connection .rooms ∧ text = upper first ∧
        upper first ≠ ascii "ROOMS" ∧ call.args.length ≠ 2) ∨
      (db.Opens (db.clientRoom call.clientFd) ∧
        ((Command.named (upper first) = .inRoom .expire ∧
            echoedOption call.args 1000 = some text) ∨
          (Command.named (upper first) = .inRoom .pexpire ∧
            echoedOption call.args 1 = some text))))

theorem value_restricted {resp3 : Bool} :
    Value resp3 (ascii
      "-ERR Clientul este in mod SUBSCRIBE. Nu poti trimite comenzi de Database!\r\n") :=
  value_errorText _ (by decide)

theorem value_executeInRoom_iff (db : Db) (call : Call) (name : Bytes) {first : Bytes}
    (head : call.args.head? = some first) {kind : RoomCommand}
    (named : Command.named (upper first) = .inRoom kind) :
    Value call.resp3 (db.executeInRoom call name kind).2 ↔
      (db.Opens name → ∀ option, ((kind = .expire ∧ echoedOption call.args 1000 = some option) ∨
        (kind = .pexpire ∧ echoedOption call.args 1 = some option)) → OneLine option) := by
  have opens := opens_iff db call.now name
  unfold executeInRoom executeInRoomWith
  dsimp only
  rcases refused : (db.findRoom name).activate call.now name false with ⟨awake, _ | _⟩
  · rw [refused] at opens
    exact iff_of_true value_roomsFull fun free => absurd (opens.mpr free) Bool.false_ne_true
  · rw [refused] at opens
    dsimp only
    rw [value_runInRoom_iff awake call.now name head named]
    exact ⟨fun each _ => each, fun each => each (opens.mp rfl)⟩

theorem value_runConnection_iff (db : Db) (call : Call) (command : Bytes)
    (kind : ConnectionCommand) :
    Value call.resp3 (db.runConnection call command kind).2 ↔
      (kind = .rooms → command ≠ ascii "ROOMS" ∧ call.args.length ≠ 2 → OneLine command) := by
  cases kind with
  | ping => exact iff_of_true (value_handlePing _ _) (by simp)
  | echo =>
      refine iff_of_true ?_ (by simp)
      change Value call.resp3 (if call.args.length = 2 then Resp.bulk _ else _)
      by_cases same : call.args.length = 2
      · rw [if_pos same]
        exact .bulk _
      · rw [if_neg same]
        exact value_wrongArguments_iff.mpr (by decide)
  | command => exact iff_of_true (value_array ⟨[], rfl, by simp, rfl⟩) (by simp)
  | room => exact iff_of_true (value_handleRoom db _ _ _) (by simp)
  | rooms =>
      refine (value_handleRoomAdmin_iff db call.now command call.args).trans ?_
      simp
  | replfrontier => exact iff_of_true (value_handleReplfrontier db _ _) (by simp)
  | rewriteaof => exact iff_of_true (value_startBackgroundRewrite db) (by simp)
  | compact => exact iff_of_true (value_integer _) (by simp)

/-- Whether the database replies with a value, to a command other than those of Pub/Sub
and `INFO`. -/
theorem value_execute_iff (db : Db) (call : Call) {first : Bytes}
    (head : call.args.head? = some first) (here : Command.named (upper first) ≠ .elsewhere) :
    Value call.resp3 (db.execute call).2 ↔ ∀ text, db.Echoes call text → OneLine text := by
  rcases List.head?_eq_some_iff.mp head with ⟨rest, args⟩
  have room := clientRoom_eq (clientRooms_beginCommand db call) call.clientFd
  have executed : db.execute call = (db.beginCommand call).dispatch call (upper first) := by
    unfold execute
    rw [args]
  have only : ∀ other, call.args.head? = some other → other = first := by
    intro other same
    exact Option.some.inj (same.symm.trans head)
  rw [executed]
  unfold dispatch
  dsimp only
  split
  · rename_i elsewhere
    exact absurd elsewhere here
  · rename_i named
    refine iff_of_true (value_handlePing _ _) ?_
    rintro text ⟨other, same, _, ⟨rooms, _⟩ | ⟨_, ⟨expire, _⟩ | ⟨pexpire, _⟩⟩⟩ <;>
      obtain rfl := only other same <;> simp_all
  · rename_i kind _ named
    cases listening : call.subscribed with
    | true =>
        refine iff_of_true value_restricted ?_
        rintro text ⟨_, _, free, _⟩
        exact absurd (listening.symm.trans free) (by simp)
    | false =>
        refine (value_runConnection_iff _ call (upper first) kind).trans ⟨?_, ?_⟩
        · rintro each text ⟨other, same, _, ⟨rooms, rfl, family, count⟩ | ⟨_, expire | pexpire⟩⟩
          · rcases only other same with rfl
            have rooms := Command.connection.inj (named.symm.trans rooms)
            exact each rooms ⟨family, count⟩
          · rcases only other same with rfl
            exact absurd (named.symm.trans expire.1) (by simp)
          · rcases only other same with rfl
            exact absurd (named.symm.trans pexpire.1) (by simp)
        · rintro each rfl ⟨family, count⟩
          exact each _ ⟨first, head, listening, .inl ⟨named, rfl, family, count⟩⟩
  · rename_i kind named
    cases listening : call.subscribed with
    | true =>
        refine iff_of_true value_restricted ?_
        rintro text ⟨_, _, free, _⟩
        exact absurd (listening.symm.trans free) (by simp)
    | false =>
        rw [if_neg (by simp), room]
        refine (value_executeInRoom_iff _ call _ head named).trans ?_
        have opens : ((db.beginCommand call).setClientRoom call.clientFd
            (db.clientRoom call.clientFd)).Opens (db.clientRoom call.clientFd) ↔
            db.Opens (db.clientRoom call.clientFd) := opens_beginCommand db call _
        rw [opens]
        constructor
        · rintro each text ⟨other, same, _, ⟨rooms, _⟩ | ⟨free, expire | pexpire⟩⟩
          · rcases only other same with rfl
            exact absurd (named.symm.trans rooms) (by simp)
          · rcases only other same with rfl
            exact each free text (.inl ⟨Command.inRoom.inj (named.symm.trans expire.1), expire.2⟩)
          · rcases only other same with rfl
            exact each free text (.inr ⟨Command.inRoom.inj (named.symm.trans pexpire.1), pexpire.2⟩)
        · rintro each free option (⟨rfl, echoed⟩ | ⟨rfl, echoed⟩)
          · exact each option ⟨first, head, listening, .inr ⟨free, .inl ⟨named, echoed⟩⟩⟩
          · exact each option ⟨first, head, listening, .inr ⟨free, .inr ⟨named, echoed⟩⟩⟩

/-! ## Failures -/

theorem value_saveUnhealthy (db : Db) (call : Call) (name : Bytes) :
    Value call.resp3 (db.saveUnhealthy call name).2 := by
  unfold saveUnhealthy
  rcases (db.findRoom name).activate call.now name false with ⟨_, _ | _⟩
  · exact value_roomsFull
  · exact value_errorText _ (by decide)

theorem value_hibernateUnsaved_iff (db : Db) (call : Call) (command : Bytes) :
    Value call.resp3 (db.hibernateUnsaved call command).2 ↔
      (command ≠ ascii "ROOMS" ∧ call.args.length ≠ 2 → OneLine command) := by
  have known : Value call.resp3 (db.handleRoomAdmin call.now call.resp3 command call.args).2 ↔ _ :=
    value_handleRoomAdmin_iff db call.now command call.args
  unfold hibernateUnsaved
  split
  · rename_i args
    split
    · exact iff_of_true (value_errorText _ (by decide)) (by simp [args])
    · exact known
  · exact known

/-- The handlers that meet a failure reply with a value, except that `ROOM.*` repeats its
name as it does otherwise. -/
theorem value_runFailing (db : Db) (call : Call) (command room : Bytes) (failure : Failure)
    {outcome : Db × Bytes} (met : db.runFailing call command room failure = some outcome) :
    (Command.named command = .connection .rooms ∧
        (Value call.resp3 outcome.2 ↔
          (command ≠ ascii "ROOMS" ∧ call.args.length ≠ 2 → OneLine command))) ∨
      ((∃ kind, kind ≠ .rooms ∧ Command.named command = .connection kind ∨
          Command.named command = .inRoom .save) ∧ Value call.resp3 outcome.2) := by
  unfold runFailing at met
  split at met
  · by_cases named : Command.named command = .inRoom .save
    · rw [if_pos named] at met
      cases met
      exact .inr ⟨⟨.ping, .inr named⟩, value_saveUnhealthy _ _ _⟩
    · rw [if_neg named] at met
      cases met
  · by_cases named : Command.named command = .connection .rooms
    · rw [if_pos named] at met
      cases met
      exact .inl ⟨named, value_hibernateUnsaved_iff _ _ _⟩
    · rw [if_neg named] at met
      cases met
  · by_cases named : Command.named command = .connection .compact
    · rw [if_pos named] at met
      cases met
      exact .inr ⟨⟨_, .inl ⟨by simp, named⟩⟩, value_errorText _ (by decide)⟩
    · rw [if_neg named] at met
      cases met
  · by_cases named : Command.named command = .connection .rewriteaof ∧ db.rewriteChild.isNone = true
    · rw [if_pos named] at met
      cases met
      exact .inr ⟨⟨_, .inl ⟨by simp, named.1⟩⟩, value_errorText _ (by decide)⟩
    · rw [if_neg named] at met
      cases met
  · by_cases named : Command.named command = .connection .rewriteaof ∧ db.rewriteChild.isNone = true
    · rw [if_pos named] at met
      cases met
      exact .inr ⟨⟨_, .inl ⟨by simp, named.1⟩⟩, value_errorText _ (by decide)⟩
    · rw [if_neg named] at met
      cases met

theorem value_executeFailing_iff (db : Db) (call : Call) (failure : Option Failure)
    {first : Bytes} (head : call.args.head? = some first)
    (here : Command.named (upper first) ≠ .elsewhere) :
    Value call.resp3 (db.executeFailing call failure).2 ↔
      ∀ text, db.Echoes call text → OneLine text := by
  have usual := value_execute_iff db call head here
  rcases List.head?_eq_some_iff.mp head with ⟨rest, args⟩
  unfold executeFailing
  rw [args]
  cases failure with
  | none => exact usual
  | some failure =>
      dsimp only
      cases listening : call.subscribed with
      | true => exact usual
      | false =>
          rw [if_neg (by simp)]
          generalize (db.beginCommand call).setClientRoom _ _ = known
          cases met : known.runFailing call (upper first)
              ((db.beginCommand call).clientRoom call.clientFd) failure with
          | none => exact usual
          | some outcome =>
              rw [Option.getD_some]
              rcases value_runFailing known call (upper first) _ failure met with
                ⟨named, echoed⟩ | ⟨⟨kind, named⟩, value⟩
              · refine echoed.trans ⟨?_, ?_⟩
                · rintro line text ⟨other, same, _, ⟨_, rfl, family⟩ | ⟨_, expire | pexpire⟩⟩
                  · rcases Option.some.inj (same.symm.trans head) with rfl
                    exact line family
                  · rcases Option.some.inj (same.symm.trans head) with rfl
                    exact absurd (named.symm.trans expire.1) (by simp)
                  · rcases Option.some.inj (same.symm.trans head) with rfl
                    exact absurd (named.symm.trans pexpire.1) (by simp)
                · intro each family
                  exact each _ ⟨first, head, listening, .inl ⟨named, rfl, family⟩⟩
              · refine iff_of_true value ?_
                rintro text ⟨other, same, _, echoes⟩
                rcases Option.some.inj (same.symm.trans head) with rfl
                rcases named with ⟨notRooms, named⟩ | named <;>
                  rw [named] at echoes <;> simp_all

end Db

/-! ## Pub/Sub -/

/-- A confirmation has three elements: its kind, the channel and a number. -/
theorem value_confirmation {resp3 : Bool} (kind : Bytes) {channel : Bytes} (number : Int)
    (value : Value resp3 channel) :
    Value resp3 (PubSub.confirmation resp3 kind ++ channel ++ integer number) := by
  have holds : Holds (Value resp3) 3 (Resp.bulk kind ++ (channel ++ integer number)) :=
    (Holds.one (.bulk kind)).append ((Holds.one value).append (.one (value_integer number)))
  unfold PubSub.confirmation
  cases resp3 with
  | false =>
      rw [show ascii "*3\r\n" = sized 42 3 from by decide, if_neg (by simp)]
      simpa using value_array holds
  | true =>
      rcases holds with ⟨values, length, each, equal⟩
      have pushed := Value.push values each
      rw [length, equal] at pushed
      rw [show ascii ">3\r\n" = sized 62 3 from by decide, if_pos rfl]
      simpa using pushed

theorem holds_subscribeLoop (resp3 : Bool) (pubsub : PubSub) (clientFd count : Nat)
    (replies : Bytes) (channels : List Bytes) (holds : Holds (Value resp3) count replies) :
    Holds (Value resp3) (count + channels.length)
      (Service.subscribeLoop pubsub clientFd resp3 replies channels).2 := by
  induction channels generalizing pubsub count replies with
  | nil => exact holds
  | cons channel rest induction =>
      unfold Service.subscribeLoop
      rw [List.length_cons, ← Nat.add_assoc, Nat.add_right_comm]
      exact induction _ _ _
        (holds.append (.one (value_confirmation (ascii "subscribe") _ (.bulk channel))))

theorem holds_unsubscribeLoop (resp3 : Bool) (pubsub : PubSub) (clientFd count : Nat)
    (replies : Bytes) (channels : List Bytes) (holds : Holds (Value resp3) count replies) :
    Holds (Value resp3) (count + channels.length)
      (pubsub.unsubscribeLoop clientFd resp3 replies channels).2 := by
  induction channels generalizing pubsub count replies with
  | nil => exact holds
  | cons channel rest induction =>
      unfold PubSub.unsubscribeLoop
      dsimp only
      rw [List.length_cons, ← Nat.add_assoc, Nat.add_right_comm]
      exact induction _ _ _
        (holds.append (.one (value_confirmation (ascii "unsubscribe") _ (.bulk channel))))

namespace Service

/-- The number of values in a reply: one for each channel that is reported, else one. -/
def reported (service : Service) (request : Request) : Nat :=
  match request.args with
  | [] => 0
  | first :: rest =>
      if upper first = ascii "SUBSCRIBE" then max 1 rest.length
      else if upper first = ascii "UNSUBSCRIBE" then
        max 1 (service.pubsub.leftBy request.clientFd rest).length
      else 1

theorem holds_handleSubscribe {resp3 : Bool} (pubsub : PubSub) (clientFd : Nat) (first : Bytes)
    (rest : List Bytes) :
    Holds (Value resp3) (max 1 rest.length)
      (handleSubscribe pubsub clientFd (first :: rest) resp3).2 := by
  unfold handleSubscribe
  cases rest with
  | nil => exact .one (value_wrongArguments_iff.mpr (by decide))
  | cons channel rest =>
      rw [if_neg (by simp), List.tail_cons,
        Nat.max_eq_right (Nat.one_le_iff_ne_zero.mpr (by simp))]
      have holds := holds_subscribeLoop resp3 pubsub clientFd 0 [] (channel :: rest)
        ⟨[], rfl, by simp, rfl⟩
      rw [Nat.zero_add] at holds
      exact holds

theorem holds_unsubscribe {resp3 : Bool} (pubsub : PubSub) (clientFd : Nat)
    (channels : List Bytes) :
    Holds (Value resp3) (max 1 (pubsub.leftBy clientFd channels).length)
      (pubsub.unsubscribe clientFd channels resp3).2 := by
  unfold PubSub.unsubscribe
  cases about : pubsub.leftBy clientFd channels with
  | nil => exact .one (value_confirmation _ _ (value_nil resp3))
  | cons channel rest =>
      rw [Nat.max_eq_right (Nat.one_le_iff_ne_zero.mpr (by simp))]
      have holds := holds_unsubscribeLoop resp3 pubsub clientFd 0 [] (channel :: rest)
        ⟨[], rfl, by simp, rfl⟩
      rw [Nat.zero_add] at holds
      exact holds

/-- The commands that the database itself does not answer. -/
theorem named_elsewhere {name : Bytes} (elsewhere : Command.named name = .elsewhere) :
    name ∈ [ascii "SUBSCRIBE", ascii "UNSUBSCRIBE", ascii "PUBLISH", ascii "INFO"] := by
  unfold Command.named at elsewhere
  by_cases same : List.isPrefixOf (ascii "ROOM.") name = true
  · rw [if_pos same] at elsewhere
    cases elsewhere
  · rw [if_neg same] at elsewhere
    cases listed : Command.table.lookup name with
    | none =>
        rw [listed] at elsewhere
        cases elsewhere
    | some command =>
        rw [listed] at elsewhere
        obtain rfl : command = .elsewhere := elsewhere
        rcases List.lookup_eq_some_iff.mp listed with ⟨before, after, equal, _⟩
        have member : (name, Command.elsewhere) ∈ Command.table := by
          rw [equal]
          simp
        simpa [Command.table] using member

/-- The reply to a command holds exactly the values that are due, unless it repeats a line
break of the request; and whatever follows it on the connection, a client reads these
values and no others. -/
theorem replies_well_formed (service : Service) (request : Request) (given : request.args ≠ []) :
    (Holds (Value request.resp3) (service.reported request) (service.execute request).reply ↔
      ∀ text, service.db.Echoes (service.callOf request) text → OneLine text) ∧
    (Holds (Value request.resp3) (service.reported request) (service.execute request).reply →
      ∀ values rest more, Holds (Value request.resp3) (service.reported request) values →
        (service.execute request).reply ++ rest = values ++ more →
          values = (service.execute request).reply ∧ more = rest) := by
  refine ⟨?_, ?_⟩
  · obtain ⟨first, rest, args⟩ : ∃ first rest, request.args = first :: rest :=
      List.exists_cons_of_ne_nil given
    have head : (service.callOf request).args.head? = some first := by
      change request.args.head? = some first
      rw [args]
      rfl
    have silent : ∀ name ∈ [ascii "SUBSCRIBE", ascii "UNSUBSCRIBE", ascii "PUBLISH", ascii "INFO"],
        upper first = name →
          ∀ text, service.db.Echoes (service.callOf request) text → OneLine text := by
      intro name member spelled text ⟨other, same, _, echoes⟩
      rcases Option.some.inj (same.symm.trans head) with rfl
      have elsewhere : ∀ name ∈ [ascii "SUBSCRIBE", ascii "UNSUBSCRIBE", ascii "PUBLISH",
          ascii "INFO"], Command.named name = .elsewhere := by decide
      rw [spelled, elsewhere name member] at echoes
      simp at echoes
    unfold execute reported
    simp only [args]
    split
    · rename_i subscribe
      exact iff_of_true (holds_handleSubscribe _ _ _ _)
        (silent _ (by simp) subscribe)
    · split
      · rename_i unsubscribe
        exact iff_of_true (holds_unsubscribe _ _ _) (silent _ (by simp) unsubscribe)
      · split
        · rename_i publish
          refine iff_of_true (.one ?_) (silent _ (by simp) publish)
          unfold handlePublish
          match shape : first :: rest with
          | _ :: _ :: _ :: _ =>
              dsimp only
              exact value_integer _
          | [] | [_] | [_, _] => exact value_wrongArguments_iff.mpr (by decide)
        · split
          · rename_i info
            refine iff_of_true (.one ?_) (silent _ (by simp) info)
            dsimp only
            by_cases subscribed : (service.callOf request).subscribed = true
            · rw [if_pos subscribed]
              exact Db.value_restricted
            · rw [if_neg subscribed]
              exact .bulk _
          · rename_i subscribe unsubscribe publish info
            have here : Command.named (upper first) ≠ .elsewhere := by
              intro elsewhere
              have listed := named_elsewhere elsewhere
              simp only [List.mem_cons, List.not_mem_nil, or_false] at listed
              tauto
            exact holds_one.trans (Db.value_executeFailing_iff service.db (service.callOf request)
              request.failure head here)
  · intro holds values rest more other equal
    rcases holds.delimited (prefixFree_value request.resp3) other equal with ⟨same, tails⟩
    exact ⟨same.symm, tails.symm⟩

def pinged : Request :=
  { clientFd := 5, args := [ascii "PING"], now := 1000 }

theorem replies_well_formed_ping :
    Holds (Value false) 1 (execute { db := Db.fresh {} 1000 } pinged).reply := by
  refine (replies_well_formed { db := Db.fresh {} 1000 } pinged (by decide)).1.mpr ?_
  rintro text ⟨first, same, _, ⟨named, _⟩ | ⟨_, ⟨named, _⟩ | ⟨named, _⟩⟩⟩ <;>
    obtain rfl := Option.some.inj same <;> exact absurd named (by decide)

/-- An `EXPIRE` whose option has a line break in it. -/
def brokenOption : Request :=
  { clientFd := 5
    args := [ascii "EXPIRE", ascii "k", ascii "1", ascii "A\r\n:7"]
    now := 1000 }

theorem option_breaks_reply :
    brokenOption.args ≠ [] ∧
      ¬Holds (Value brokenOption.resp3) (reported { db := Db.fresh {} 1000 } brokenOption)
        (execute { db := Db.fresh {} 1000 } brokenOption).reply := by
  have count : reported { db := Db.fresh {} 1000 } brokenOption = 1 := by decide +kernel
  have reply : (execute { db := Db.fresh {} 1000 } brokenOption).reply =
      45 :: (ascii "ERR Unsupported option " ++ ascii "A\r\n:7") ++ crlf := by decide +kernel
  have plain : OneLine (ascii "ERR Unsupported option ") := by decide
  refine ⟨by decide, ?_⟩
  rw [count, holds_one, reply, value_error_iff plain]
  decide

end Service

end SomniumDB
