import SomniumDB.Abstract.Clients
import SomniumDB.Core.ErrorLines
import SomniumDB.Properties.Figures

/-! # What a refused room leaves behind

A command needs a room and does not get it. The room is then as it was, but a name that
the registry did not know may have been registered before the room was refused. -/

namespace SomniumDB

open Bytes

namespace Db

/-- The errors with which a room is refused. -/
def roomErrors : List Bytes :=
  [ascii "-ERR invalid room name\r\n", ascii "-ERR too many rooms\r\n", roomsFull]

/-- The registry, the selected rooms, the rooms and their counters are as they were. -/
structure Unchanged (db after : Db) : Prop where
  registry : ∀ name, name ∈ after.rooms ↔ name ∈ db.rooms
  selected : ∀ clientFd, after.clientRoom clientFd = db.clientRoom clientFd
  active : after.activeRooms = db.activeRooms
  states : ∀ name, (after.room name).state = (db.room name).state
  keys : ∀ name, after.keysOf name = db.keysOf name
  bytes : ∀ name, (after.room name).bytes = (db.room name).bytes
  resident : after.metrics.residentBytes = db.metrics.residentBytes
  count : after.metrics.keysInRam = db.metrics.keysInRam

variable {db after : Db} {now : Nat} {name : Bytes}

theorem Unchanged.refl : Unchanged db db :=
  ⟨fun _ => .rfl, fun _ => rfl, rfl, fun _ => rfl, fun _ => rfl, fun _ => rfl, rfl, rfl⟩

theorem Unchanged.trans {third : Db} (left : Unchanged db after) (right : Unchanged after third) :
    Unchanged db third where
  registry name := (right.registry name).trans (left.registry name)
  selected clientFd := (right.selected clientFd).trans (left.selected clientFd)
  active := right.active.trans left.active
  states name := (right.states name).trans (left.states name)
  keys name := (right.keys name).trans (left.keys name)
  bytes name := (right.bytes name).trans (left.bytes name)
  resident := right.resident.trans left.resident
  count := right.count.trans left.count

theorem Unchanged.symm (unchanged : Unchanged db after) : Unchanged after db where
  registry name := (unchanged.registry name).symm
  selected clientFd := (unchanged.selected clientFd).symm
  active := unchanged.active.symm
  states name := (unchanged.states name).symm
  keys name := (unchanged.keys name).symm
  bytes name := (unchanged.bytes name).symm
  resident := unchanged.resident.symm
  count := unchanged.count.symm

/-! ## Commands that get their room answer otherwise -/

theorem not_roomError_of_head {reply : Bytes} (noError : reply.head? ≠ some 45) :
    reply ∉ roomErrors := by
  intro member
  have errors : ∀ err ∈ roomErrors, err.head? = some 45 := by decide
  exact noError (errors reply member)

/-- The text behind the prefix does not matter. -/
theorem not_roomError_of_take {reply : Bytes} (front : Bytes) (starts : reply.take 6 = front)
    (other : ∀ err ∈ roomErrors, err.take 6 ≠ front) : reply ∉ roomErrors :=
  fun member => other reply member starts

theorem not_roomError_wrongArguments (command : Bytes) : wrongArguments command ∉ roomErrors :=
  not_roomError_of_take (ascii "-ERR W") rfl (by decide)

theorem not_roomError_text (text : String) (other : ascii text ∉ roomErrors) :
    ascii text ∉ roomErrors := other

theorem not_roomError_ok : ascii "+OK\r\n" ∉ roomErrors := by decide

theorem not_roomError_ignoredStale : ignoredStale ∉ roomErrors := by decide

theorem not_roomError_nil (resp3 : Bool) : nil resp3 ∉ roomErrors := by
  cases resp3 <;> decide

theorem not_roomError_bulk (value : Bytes) : Resp.bulk value ∉ roomErrors :=
  not_roomError_of_head (by simp [Resp.bulk])

theorem not_roomError_integer (number : Int) : integer number ∉ roomErrors :=
  not_roomError_of_head (by simp [integer])

section Handlers

variable (db) (now) (name) (resp3 : Bool) (args : List Bytes)

theorem not_roomError_handleGet : (db.handleGet now resp3 name args).2 ∉ roomErrors := by
  unfold handleGet Keyspace.handleGet
  simp only [Keyspace.ofDb]
  match args with
  | [_, key] =>
      dsimp only
      cases (db.lookup now name key).2 with
      | none => exact not_roomError_nil resp3
      | some record => exact not_roomError_bulk _
  | [] | [_] | _ :: _ :: _ :: _ => exact not_roomError_wrongArguments _

theorem not_roomError_handleSet : (db.handleSet now resp3 name args).2 ∉ roomErrors := by
  unfold handleSet Keyspace.handleSet
  simp only [Keyspace.ofDb]
  match args with
  | head :: key :: value :: options =>
      dsimp only
      cases refused : setOptions now {} options with
      | error _ =>
          rcases setOptions_texts refused with rfl | rfl
          · exact not_roomError_text _ (by decide)
          · exact not_roomError_text _ (by decide)
      | ok options =>
          dsimp only
          by_cases conditional : (options.nx && (db.lookup now name key).2.isSome || options.xx &&
              (db.lookup now name key).2.isNone) = true
          · rw [if_pos conditional]
            exact not_roomError_nil resp3
          · rw [if_neg conditional]
            exact not_roomError_ok
  | [] | [_] | [_, _] => exact not_roomError_wrongArguments _

theorem not_roomError_handleMset : (db.handleMset now name args).2 ∉ roomErrors := by
  unfold handleMset Keyspace.handleMset
  simp only [Keyspace.ofDb]
  by_cases malformed : args.length < 3 ∨ args.length % 2 = 0
  · rw [if_pos malformed]
    exact not_roomError_wrongArguments _
  · rw [if_neg malformed]
    exact not_roomError_ok

theorem not_roomError_mgetLoop (out : Bytes) (keys : List Bytes) (starts : out.head? = some 42) :
    (db.mgetLoop now resp3 name out keys).2 ∉ roomErrors := by
  have longer : ∀ element, (out ++ element).head? = some 42 := by
    intro element
    rw [List.head?_append, starts]
    rfl
  induction keys generalizing db out with
  | nil =>
      refine not_roomError_of_head ?_
      unfold mgetLoop Keyspace.mgetLoop
      rw [starts]
      decide
  | cons key rest induction =>
      have next : ∀ element other, (out ++ element ++ other).head? = some 42 := by
        intro element other
        rw [List.append_assoc]
        exact longer _
      unfold mgetLoop Keyspace.mgetLoop
      simp only [Keyspace.ofDb]
      rcases db.lookup now name key with ⟨found, _ | record⟩
      · exact induction _ _ (longer _) (next _)
      · dsimp only
        by_cases long : maxReply < out.length + record.value.length
        · rw [if_pos long]
          exact not_roomError_text _ (by decide)
        · rw [if_neg long]
          exact induction _ _ (longer _) (next _)

theorem not_roomError_handleMget : (db.handleMget now resp3 name args).2 ∉ roomErrors := by
  unfold handleMget Keyspace.handleMget
  simp only [Keyspace.ofDb]
  match args with
  | _ :: _ :: _ => exact not_roomError_mgetLoop db now name resp3 _ _ rfl
  | [] | [_] => exact not_roomError_wrongArguments _

theorem not_roomError_handleExists : (db.handleExists now name args).2 ∉ roomErrors := by
  unfold handleExists Keyspace.handleExists
  simp only [Keyspace.ofDb]
  match args with
  | _ :: _ :: _ => exact not_roomError_integer _
  | [] | [_] => exact not_roomError_wrongArguments _

theorem not_roomError_handleDel : (db.handleDel now name args).2 ∉ roomErrors := by
  unfold handleDel Keyspace.handleDel
  simp only [Keyspace.ofDb]
  match args with
  | _ :: _ :: _ => exact not_roomError_integer _
  | [] | [_] => exact not_roomError_wrongArguments _

theorem not_roomError_handleTtl (millis : Bool) :
    (db.handleTtl now name args millis).2 ∉ roomErrors := by
  unfold handleTtl Keyspace.handleTtl
  simp only [Keyspace.ofDb]
  match args with
  | [head, key] =>
      dsimp only
      rcases db.lookup now name key with ⟨found, _ | record⟩
      · exact not_roomError_integer _
      · dsimp only
        by_cases same : record.expireAt = 0
        · rw [if_pos same]
          exact not_roomError_integer _
        · rw [if_neg same]
          exact not_roomError_integer _
  | [] | [_] | _ :: _ :: _ :: _ => exact not_roomError_wrongArguments _

theorem not_roomError_handleExpire (scale : Int) :
    (db.handleExpire now name args scale).2 ∉ roomErrors := by
  unfold handleExpire Keyspace.handleExpire
  simp only [Keyspace.ofDb]
  by_cases few : if scale ≠ 0 then args.length < 3 else args.length ≠ 2
  · rw [if_pos few]
    exact not_roomError_wrongArguments _
  · rw [if_neg few]
    cases refused : expireOptions {} (args.drop 3) with
    | error _ =>
        rcases expireOptions_text refused with ⟨option, rfl⟩
        exact not_roomError_of_take (ascii "-ERR U") rfl (by decide)
    | ok options =>
        dsimp only
        by_cases clash : (options.nx && (options.xx || options.gt || options.lt)) = true
        · rw [if_pos clash]
          exact not_roomError_text _ (by decide)
        · rw [if_neg clash]
          by_cases both : (options.gt && options.lt) = true
          · rw [if_pos both]
            exact not_roomError_text _ (by decide)
          · rw [if_neg both]
            rcases refused : expireDeadline now scale args with _ | ⟨n, expireAt⟩
            · dsimp only
              rw [expireDeadline_text refused]
              exact not_roomError_text _ (by decide)
            · rcases db.lookup now name (args[1]?.getD []) with ⟨found, _ | record⟩
              · dsimp only
                exact not_roomError_integer _
              · dsimp only
                by_cases unmoved : scale = 0 ∧ record.expireAt = 0 ∨
                    expireRefused options record expireAt = true
                · rw [if_pos unmoved]
                  exact not_roomError_integer _
                · rw [if_neg unmoved]
                  by_cases spent : scale ≠ 0 ∧ n ≤ 0
                  · rw [if_pos spent]
                    exact not_roomError_handleDel _ now name _
                  · rw [if_neg spent]
                    exact not_roomError_integer _

theorem not_roomError_incomingVersion {tsArg nodeArg err : Bytes}
    (refused : db.incomingVersion now tsArg nodeArg = .error err) : err ∉ roomErrors := by
  rcases incomingVersion_texts refused with rfl | rfl
  · exact not_roomError_text _ (by decide)
  · exact not_roomError_text _ (by decide)

theorem not_roomError_mergeInto (key value : Bytes) (expireAt : Option Int) (version : Version) :
    (db.mergeInto now name key value args expireAt version).2 ∉ roomErrors := by
  unfold mergeInto Keyspace.mergeInto
  simp only [Keyspace.ofDb]
  by_cases stale :
      (db.lookup now name key).1.stale name key (db.lookup now name key).2 version = true
  · rw [if_pos stale]
    exact not_roomError_ignoredStale
  · rw [if_neg stale]
    exact not_roomError_text _ (by decide)

theorem not_roomError_handleCrdtmerge : (db.handleCrdtmerge now name args).2 ∉ roomErrors := by
  unfold handleCrdtmerge Keyspace.handleCrdtmerge
  simp only [Keyspace.ofDb]
  match args with
  | [head, key, value, tsArg, nodeArg] =>
      dsimp only
      rcases refused : db.incomingVersion now tsArg nodeArg with _ | ⟨_, _⟩
      · exact not_roomError_incomingVersion db now refused
      · exact not_roomError_mergeInto _ now name _ _ _ _ _
  | [head, key, value, tsArg, nodeArg, expireArg] =>
      dsimp only
      cases FsUtil.parseI64 expireArg with
      | none => exact not_roomError_text _ (by decide)
      | some expireAt =>
          dsimp only
          by_cases negative : expireAt < 0
          · rw [if_pos negative]
            exact not_roomError_text _ (by decide)
          · rw [if_neg negative]
            rcases refused : db.incomingVersion now tsArg nodeArg with _ | ⟨_, _⟩
            · exact not_roomError_incomingVersion db now refused
            · exact not_roomError_mergeInto _ now name _ _ _ _ _
  | [] | [_] | [_, _] | [_, _, _] | [_, _, _, _] | _ :: _ :: _ :: _ :: _ :: _ :: _ :: _ =>
      exact not_roomError_text _ (by decide)

theorem not_roomError_handleCrdtdel : (db.handleCrdtdel now name args).2 ∉ roomErrors := by
  unfold handleCrdtdel Keyspace.handleCrdtdel
  simp only [Keyspace.ofDb]
  match args with
  | [head, key, tsArg, nodeArg] =>
      dsimp only
      rcases refused : db.incomingVersion now tsArg nodeArg with _ | ⟨observed, version⟩
      · exact not_roomError_incomingVersion db now refused
      · unfold deleteFrom Keyspace.deleteFrom
        simp only [Keyspace.ofDb]
        by_cases stale :
            (observed.lookup now name key).1.stale name key (observed.lookup now name key).2 version =
            true
        · rw [if_pos stale]
          exact not_roomError_ignoredStale
        · rw [if_neg stale]
          exact not_roomError_text _ (by decide)
  | [] | [_] | [_, _] | [_, _, _] | _ :: _ :: _ :: _ :: _ :: _ =>
      exact not_roomError_text _ (by decide)

theorem not_roomError_runInRoom (kind : RoomCommand) :
    (db.runInRoom now resp3 name args kind).2 ∉ roomErrors := by
  cases kind with
  | get => exact not_roomError_handleGet db now name resp3 args
  | set => exact not_roomError_handleSet db now name resp3 args
  | del => exact not_roomError_handleDel db now name args
  | crdtmerge => exact not_roomError_handleCrdtmerge db now name args
  | crdtdel => exact not_roomError_handleCrdtdel db now name args
  | mget => exact not_roomError_handleMget db now name resp3 args
  | mset => exact not_roomError_handleMset db now name args
  | exist => exact not_roomError_handleExists db now name args
  | expire => exact not_roomError_handleExpire db now name args 1000
  | pexpire => exact not_roomError_handleExpire db now name args 1
  | persist => exact not_roomError_handleExpire db now name args 0
  | ttl => exact not_roomError_handleTtl db now name args false
  | pttl => exact not_roomError_handleTtl db now name args true
  | save => exact not_roomError_text _ (by decide)
  | unknown => exact not_roomError_text _ (by decide)

end Handlers

/-! ## A refused room -/

/-- A room is replaced by one with the same state, keys and size. -/
theorem unchanged_setRoom (registered : name ∈ db.rooms) (room : Room)
    (state : room.state = (db.room name).state) (keys : room.keys = (db.room name).keys)
    (bytes : room.bytes = (db.room name).bytes) : Unchanged db (db.setRoom name room) := by
  have field : ∀ {α : Type} (read : Room → α), read room = read (db.room name) →
      ∀ other, read ((db.setRoom name room).room other) = read (db.room other) := by
    intro α read same other
    unfold setRoom
    rw [Db.room, FiniteMap.lookup_insert_if]
    by_cases here : other = name
    · rw [if_pos here]
      rw [Option.getD_some, same, here]
    · rw [if_neg here]
      rfl
  refine ⟨fun other => ?_, fun _ => rfl, rfl, field Room.state state, field Room.keys keys,
    field Room.bytes bytes, rfl, rfl⟩
  unfold setRoom
  rw [AList.mem_insert]
  refine ⟨fun member => ?_, .inr⟩
  rcases member with rfl | member
  · exact registered
  · exact member

/-- The room that is refused stays asleep. -/
theorem unchanged_activate (accounted : db.Accounted) (registered : name ∈ db.rooms)
    (refused : (db.activate now name false).2 = false) :
    Unchanged db (db.activate now name false).1 := by
  unfold activate at refused ⊢
  dsimp only at refused ⊢
  by_cases awake : (db.room name).state = .active
  · rw [if_pos awake] at refused
    cases refused
  · rw [if_neg awake] at refused
    have sleeping : (db.room name).state = .sleeping := by
      cases state : (db.room name).state with
      | sleeping => rfl
      | active => exact absurd state awake
    rw [if_neg awake]
    by_cases full : maxActiveRooms ≤ db.activeRooms ∧ (!false) = true
    · rw [if_pos full] at refused
      rw [if_pos full]
      exact unchanged_setRoom registered _ rfl rfl rfl
    · rw [if_neg full] at refused
      rw [if_neg full]
      split at refused
      · rename_i heavy
        rw [if_pos heavy]
        exact unchanged_setRoom registered _ rfl (accounted.asleep name sleeping).symm rfl
      · cases refused

theorem unchanged_findRoom_iff : Unchanged db (db.findRoom name) ↔ name ∈ db.rooms := by
  constructor
  · intro unchanged
    exact (unchanged.registry name).mp ((mem_findRoom db name name).mpr (.inl rfl))
  · intro registered
    rw [findRoom, if_pos registered]
    exact .refl

/-- `find_room` and `activate`: what is registered for a refused room stays. -/
theorem unchanged_refused_iff (accounted : db.Accounted)
    (refused : ((db.findRoom name).activate now name false).2 = false) :
    Unchanged db ((db.findRoom name).activate now name false).1 ↔ name ∈ db.rooms := by
  have later := unchanged_activate ((lives_findRoom db name).accounted accounted)
    ((mem_findRoom db name name).mpr (.inl rfl)) refused
  rw [← unchanged_findRoom_iff]
  exact ⟨fun whole => whole.trans later.symm, fun first => first.trans later⟩

/-- The room is refused before it is registered. -/
def RefusedEarly (db : Db) (name : Bytes) : Prop :=
  validRoomName name = false ∨ db.config.maxRooms ≤ db.rooms.toPairs.length

theorem unchanged_wakeRoom_iff (accounted : db.Accounted)
    (refused : (db.wakeRoom now name).2 ≠ none) :
    Unchanged db (db.wakeRoom now name).1 ↔ name ∈ db.rooms ∨ db.RefusedEarly name := by
  unfold wakeRoom at refused ⊢
  unfold RefusedEarly
  cases valid : validRoomName name with
  | false => exact iff_of_true .refl (.inr (.inl rfl))
  | true =>
      rw [valid] at refused
      simp only [Bool.not_true, Bool.false_eq_true, if_false] at refused ⊢
      by_cases many : name ∉ db.rooms ∧ db.config.maxRooms ≤ db.rooms.toPairs.length
      · rw [if_pos many]
        exact iff_of_true .refl (.inr (.inr many.2))
      · rw [if_neg many] at refused ⊢
        have denied : ((db.findRoom name).activate now name false).2 = false := by
          cases awake : ((db.findRoom name).activate now name false).2 with
          | false => rfl
          | true =>
              simp only [awake, if_true] at refused
              exact absurd rfl refused
        refine (unchanged_refused_iff accounted denied).trans ⟨.inl, fun either => ?_⟩
        rcases either with registered | invalid | full
        · exact registered
        · cases invalid
        · by_contra unknown
          exact many ⟨unknown, full⟩

/-! ## Commands -/

/-- A rewrite that ends or starts concerns the log and the snapshot files only. -/
theorem beginCommand_fields (db : Db) (call : Call) :
    ∃ snapshots aof child length, db.beginCommand call =
      { db with snapshots, aof, rewriteChild := child, rewriteFrom := length } := by
  have finished : ∃ aof child, db.finishBackgroundRewrite =
      { db with aof, rewriteChild := child } := by
    rcases finishBackgroundRewrite_cases db with same | ⟨_, _, _, ⟨_, dropped⟩ | ⟨_, committed⟩⟩
    · exact ⟨db.aof, db.rewriteChild, same⟩
    · exact ⟨db.aof, none, dropped⟩
    · exact ⟨_, none, committed⟩
  rcases finished with ⟨aof, child, equal⟩
  rcases beginCommand_cases db call with same | ⟨idle, forked⟩
  · exact ⟨db.snapshots, aof, child, db.rewriteFrom, same.trans equal⟩
  · rw [equal] at idle forked
    obtain rfl : child = none := idle
    exact ⟨_, aof, _, aof.length, forked⟩

/-- The state in which the handler of a command starts. -/
def ready (db : Db) (call : Call) : Db :=
  (db.beginCommand call).setClientRoom call.clientFd
    ((db.beginCommand call).clientRoom call.clientFd)

theorem ready_fields (db : Db) (call : Call) :
    ∃ snapshots aof child length, db.ready call =
      { db with
        snapshots, aof, rewriteChild := child, rewriteFrom := length
        clientRooms := db.clientRooms.insert call.clientFd (db.clientRoom call.clientFd) } := by
  rcases beginCommand_fields db call with ⟨snapshots, aof, child, length, equal⟩
  refine ⟨snapshots, aof, child, length, ?_⟩
  rw [ready, equal]
  rfl

theorem unchanged_ready (db : Db) (call : Call) : Unchanged db (db.ready call) := by
  rcases ready_fields db call with ⟨_, _, _, _, equal⟩
  rw [equal]
  exact ⟨fun _ => .rfl, clientRoom_known db call.clientFd, rfl, fun _ => rfl,
    fun _ => rfl, fun _ => rfl, rfl, rfl⟩

theorem accounted_ready (accounted : db.Accounted) (call : Call) : (db.ready call).Accounted := by
  rcases ready_fields db call with ⟨_, _, _, _, equal⟩
  rw [equal]
  exact accounted.elsewhere rfl rfl rfl rfl

theorem refusedEarly_ready (db : Db) (call : Call) (name : Bytes) :
    (db.ready call).RefusedEarly name ↔ db.RefusedEarly name := by
  rcases ready_fields db call with ⟨_, _, _, _, equal⟩
  rw [equal]
  rfl

theorem restricted_not_roomError :
    ascii "-ERR Clientul este in mod SUBSCRIBE. Nu poti trimite comenzi de Database!\r\n" ∉
      roomErrors := by
  decide

theorem unchanged_handleRoom_iff (accounted : db.Accounted) {first : Bytes} {clientFd : Nat}
    (refused : (db.handleRoom now clientFd [first, name]).2 ∈ roomErrors) :
    Unchanged db (db.handleRoom now clientFd [first, name]).1 ↔
      name ∈ db.rooms ∨ db.RefusedEarly name := by
  have woken := @unchanged_wakeRoom_iff db now name accounted
  unfold handleRoom at refused ⊢
  dsimp only at refused ⊢
  rcases equal : db.wakeRoom now name with ⟨_, _ | err⟩
  · simp only [equal] at refused
    exact absurd refused not_roomError_ok
  · simp only [equal] at refused
    rw [equal] at woken
    exact woken (by simp)

theorem unchanged_roomWake_iff (accounted : db.Accounted) {resp3 : Bool} {first : Bytes}
    (refused : (db.handleRoomAdmin now resp3 (ascii "ROOM.WAKE") [first, name]).2 ∈ roomErrors) :
    Unchanged db (db.handleRoomAdmin now resp3 (ascii "ROOM.WAKE") [first, name]).1 ↔
      name ∈ db.rooms ∨ db.RefusedEarly name := by
  have equal : db.handleRoomAdmin now resp3 (ascii "ROOM.WAKE") [first, name] =
      ((db.wakeRoom now name).1, (db.wakeRoom now name).2.getD (ascii "+OK\r\n")) := by
    unfold handleRoomAdmin
    rw [if_neg (by decide)]
    dsimp only
    rw [if_pos rfl]
  rw [equal] at refused ⊢
  refine unchanged_wakeRoom_iff accounted fun awake => ?_
  rw [awake] at refused
  exact not_roomError_ok refused

theorem unchanged_executeInRoom_iff (accounted : db.Accounted) {call : Call} {kind : RoomCommand}
    (refused : (db.executeInRoom call name kind).2 ∈ roomErrors) :
    Unchanged db (db.executeInRoom call name kind).1 ↔ name ∈ db.rooms := by
  have opened := @unchanged_refused_iff db call.now name accounted
  unfold executeInRoom executeInRoomWith at refused ⊢
  dsimp only at refused ⊢
  rcases equal : (db.findRoom name).activate call.now name false with ⟨_, _ | _⟩
  · simp only [equal] at refused
    rw [equal] at opened
    exact opened rfl
  · simp only [equal] at refused
    exact absurd refused (not_roomError_runInRoom _ call.now name call.resp3 call.args kind)

/-- A command on the connection that is refused a room has been run. -/
theorem execute_connection {call : Call} {first : Bytes} {rest : List Bytes}
    {kind : ConnectionCommand} (args : call.args = first :: rest)
    (named : Command.named (upper first) = .connection kind) (noPing : kind ≠ .ping)
    (refused : (db.execute call).2 ∈ roomErrors) :
    db.execute call = (db.ready call).runConnection call (upper first) kind := by
  have executed : db.execute call = (db.beginCommand call).dispatch call (upper first) := by
    rw [execute, args]
  rw [executed] at refused ⊢
  unfold dispatch at refused ⊢
  rw [named] at refused ⊢
  cases kind with
  | ping => exact absurd rfl noPing
  | _ =>
      dsimp only at refused ⊢
      split at refused
      · exact absurd refused restricted_not_roomError
      · rename_i ordinary
        rw [if_neg ordinary]
        rfl

theorem execute_refused_inRoom {call : Call} {first : Bytes} {rest : List Bytes}
    {kind : RoomCommand} (args : call.args = first :: rest)
    (named : Command.named (upper first) = .inRoom kind)
    (refused : (db.execute call).2 ∈ roomErrors) :
    db.execute call = (db.ready call).executeInRoom call (db.clientRoom call.clientFd) kind := by
  have selected : (db.beginCommand call).clientRoom call.clientFd =
      db.clientRoom call.clientFd := by
    unfold clientRoom
    rw [clientRooms_beginCommand]
  have executed : db.execute call = (db.beginCommand call).dispatch call (upper first) := by
    rw [execute, args]
  rw [executed] at refused ⊢
  unfold dispatch at refused ⊢
  rw [named] at refused ⊢
  dsimp only at refused ⊢
  by_cases subscribed : call.subscribed = true
  · rw [if_pos subscribed] at refused
    exact absurd refused restricted_not_roomError
  · rw [if_neg subscribed] at refused
    rw [if_neg subscribed]
    change (db.ready call).executeInRoom call
      ((db.beginCommand call).clientRoom call.clientFd) kind = _
    rw [selected]

/-- What a handler leaves as it finds it, the whole command leaves so too. -/
theorem unchanged_of_ready (call : Call) :
    Unchanged db after ↔ Unchanged (db.ready call) after := by
  have before := unchanged_ready db call
  exact ⟨fun whole => before.symm.trans whole, fun later => before.trans later⟩

/-- A command that asks for a room by its name. -/
theorem unchanged_named_iff (accounted : db.Accounted) {call : Call} {first : Bytes}
    (args : call.args = [first, name])
    (named : upper first = ascii "ROOM" ∨ upper first = ascii "ROOM.WAKE")
    (refused : (db.execute call).2 ∈ roomErrors) :
    Unchanged db (db.execute call).1 ↔ name ∈ db.rooms ∨ db.RefusedEarly name := by
  have steady := accounted_ready accounted call
  rw [unchanged_of_ready call, ← (unchanged_ready db call).registry name,
    ← refusedEarly_ready db call name]
  rcases named with select | wake
  · have known : Command.named (upper first) = .connection .room := by
      rw [select]
      decide
    have ran := execute_connection args known (by decide) refused
    rw [ran] at refused ⊢
    change ((db.ready call).handleRoom call.now call.clientFd call.args).2 ∈ roomErrors at refused
    change Unchanged _ ((db.ready call).handleRoom call.now call.clientFd call.args).1 ↔ _
    rw [args] at refused ⊢
    exact unchanged_handleRoom_iff steady refused
  · have known : Command.named (upper first) = .connection .rooms := by
      rw [wake]
      decide
    have ran := execute_connection args known (by decide) refused
    rw [ran, wake] at refused ⊢
    change ((db.ready call).handleRoomAdmin call.now call.resp3 (ascii "ROOM.WAKE")
      call.args).2 ∈ roomErrors at refused
    change Unchanged _ ((db.ready call).handleRoomAdmin call.now call.resp3
      (ascii "ROOM.WAKE") call.args).1 ↔ _
    rw [args] at refused ⊢
    exact unchanged_roomWake_iff steady refused

/-- A command that runs in the room that its client has selected. -/
theorem unchanged_inRoom_iff (accounted : db.Accounted) {call : Call} {first : Bytes}
    {rest : List Bytes} {kind : RoomCommand} (args : call.args = first :: rest)
    (named : Command.named (upper first) = .inRoom kind)
    (refused : (db.execute call).2 ∈ roomErrors) :
    Unchanged db (db.execute call).1 ↔ db.clientRoom call.clientFd ∈ db.rooms := by
  have ran := execute_refused_inRoom args named refused
  rw [unchanged_of_ready call, ← (unchanged_ready db call).registry]
  rw [ran] at refused ⊢
  exact unchanged_executeInRoom_iff (accounted_ready accounted call) refused

/-- In every state that a node comes to, a refused command leaves everything as it was just
when nothing had to be registered for it: its room is known, or it was refused for its name
or for the size of the registry. -/
theorem refused_room_unchanged_iff (config : Config) (aof : List AofRecord)
    (snapshots : FiniteMap Bytes (FiniteMap Bytes Record)) (start : Nat)
    (occurrences : List Occurrence) :
    let db := (recover config aof snapshots start).occurAll occurrences
    (∀ (call : Call) (first name : Bytes), call.args = [first, name] →
        (upper first = ascii "ROOM" ∨ upper first = ascii "ROOM.WAKE") →
        (db.execute call).2 ∈ roomErrors →
        (Unchanged db (db.execute call).1 ↔ name ∈ db.rooms ∨ db.RefusedEarly name)) ∧
      ∀ (call : Call) (first : Bytes) (rest : List Bytes) (kind : RoomCommand),
        call.args = first :: rest → Command.named (upper first) = .inRoom kind →
        (db.execute call).2 ∈ roomErrors →
        (Unchanged db (db.execute call).1 ↔ db.clientRoom call.clientFd ∈ db.rooms) := by
  intro db
  have accounted : db.Accounted :=
    (accounted_recover config aof snapshots start).occurred occurrences
  exact ⟨fun call first name args named refused => unchanged_named_iff accounted args named refused,
    fun call first rest kind args named refused =>
      unchanged_inRoom_iff accounted args named refused⟩

/-- A name with a slash. -/
def slashCall : Call := { clientFd := 5, args := [ascii "ROOM", ascii "a/b"], now := 1 }

theorem refused_room_unchanged_slash :
    Unchanged ((recover {} [] ∅ 0).occurAll [])
      (((recover {} [] ∅ 0).occurAll []).execute slashCall).1 :=
  ((refused_room_unchanged_iff {} [] ∅ 0 []).1 slashCall (ascii "ROOM") (ascii "a/b") rfl
    (.inl (by decide)) (by decide +kernel)).mpr (.inr (.inl (by decide)))

/-- Three of the four rooms that the registry takes, all awake. -/
def crowded : Db :=
  (recover { maxRooms := 4 } [] ∅ 0).occurAll
    [.event (clientCall 1 [ascii "ROOM", ascii "a"]),
      .event (clientCall 2 [ascii "ROOM", ascii "b"]),
      .event (clientCall 3 [ascii "ROOM", ascii "c"])]

def fourthCall : Call := { clientFd := 5, args := [ascii "ROOM", ascii "d"], now := 4 }

/-- A `ROOM` for which there is no free place takes the last place of the registry: after one
of the other rooms has been put to sleep, no further name is accepted. -/
theorem refused_room_registered :
    (crowded.execute fourthCall).2 = roomsFull ∧ ascii "d" ∉ crowded.rooms ∧
      ascii "d" ∈ (crowded.execute fourthCall).1.rooms ∧
      ¬ Unchanged crowded (crowded.execute fourthCall).1 ∧
      (((crowded.execute fourthCall).1.occurAll
        [.event (clientCall 5 [ascii "ROOM.HIBERNATE", ascii "a"])]).execute
          { clientFd := 5, args := [ascii "ROOM", ascii "e"], now := 6 }).2 =
            ascii "-ERR too many rooms\r\n" := by
  have unknown : ascii "d" ∉ crowded.rooms := by decide +kernel
  have registered : ascii "d" ∈ (crowded.execute fourthCall).1.rooms := by decide +kernel
  refine ⟨by decide +kernel, unknown, registered, fun unchanged => ?_, by decide +kernel⟩
  exact unknown ((unchanged.registry _).mp registered)

end Db

end SomniumDB
