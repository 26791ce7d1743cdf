import SomniumDB.Abstract.Invariant

/-! # The room a client has selected

Only an accepted `ROOM` of the client itself changes it. -/

namespace SomniumDB

open Bytes

namespace Db

variable {db after : Db} {now : Nat} {name : Bytes}

theorem clientRooms_wakeRoom (wellFormed : db.WellFormed) (now : Nat) (name : Bytes) :
    (db.wakeRoom now name).1.clientRooms = db.clientRooms := by
  rcases wakeRoom_spec wellFormed now name with ⟨_, rearranged⟩
  rw [rearranged.fields]

theorem wakeRoom_reply (db : Db) (now : Nat) (name : Bytes) :
    ((db.wakeRoom now name).2 = none ∧ validRoomName name = true) ∨
      ∃ err, (db.wakeRoom now name).2 = some err ∧ err.head? = some 45 := by
  unfold wakeRoom
  by_cases invalid : (!validRoomName name) = true
  · rw [if_pos invalid]
    exact .inr ⟨_, rfl, by simp [ascii]⟩
  · rw [if_neg invalid]
    by_cases crowded : name ∉ db.rooms ∧ db.config.maxRooms ≤ db.rooms.toPairs.length
    · rw [if_pos crowded]
      exact .inr ⟨_, rfl, by simp [ascii]⟩
    · rw [if_neg crowded]
      dsimp only
      by_cases same : ((db.findRoom name).activate now name false).2 = true
      · rw [if_pos same]
        exact .inl ⟨rfl, by simpa using invalid⟩
      · rw [if_neg same]
        exact .inr ⟨_, rfl, by simp [roomsFull, ascii]⟩

theorem clientRooms_executeInRoom (wellFormed : db.WellFormed) (call : Call) (name : Bytes)
    {first : Bytes} (head : call.args.head? = some first) {kind : RoomCommand}
    (named : Command.named (upper first) = .inRoom kind) :
    (db.executeInRoom call name kind).1.clientRooms = db.clientRooms := by
  rcases open_spec wellFormed call.now name with ⟨kept, rearranged, woken⟩
  have same : ((db.findRoom name).activate call.now name false).1.clientRooms =
      db.clientRooms := by
    rw [rearranged.fields]
  unfold executeInRoom executeInRoomWith
  dsimp only
  rcases equal : (db.findRoom name).activate call.now name false with ⟨awake, _ | _⟩
  · rw [equal] at same
    exact same
  · rw [equal] at kept woken same
    have served : Serves Node.Step call.now _ _ :=
      serves_runInRoom kept.wellFormed (woken rfl) call.resp3 head named
    have evicted : Serves Node.Step call.now _ _ := serves_evictDespisedKeys served.wellFormed
      (served.frame.awake (woken rfl)) call.victims
    exact (evicted.frame.clientRooms.trans served.frame.clientRooms).trans same

theorem clientRooms_hibernate (db : Db) (name : Bytes) :
    (db.hibernate name).clientRooms = db.clientRooms := by
  unfold hibernate
  dsimp only
  by_cases asleep : (db.room name).state = .sleeping
  · rw [if_pos asleep]
  · rw [if_neg asleep]

theorem clientRooms_startBackgroundRewrite (db : Db) :
    db.startBackgroundRewrite.1.clientRooms = db.clientRooms := by
  unfold startBackgroundRewrite
  cases db.rewriteChild with
  | none => rfl
  | some _ => rfl

theorem clientRooms_beginCommand (db : Db) (call : Call) :
    (db.beginCommand call).clientRooms = db.clientRooms := by
  have finished : db.finishBackgroundRewrite.clientRooms = db.clientRooms := by
    rcases finishBackgroundRewrite_cases db with same | ⟨_, _, _, ⟨_, dropped⟩ | ⟨_, committed⟩⟩
    · rw [same]
    · rw [dropped]
    · rw [committed]
  rcases beginCommand_cases db call with same | ⟨_, forked⟩
  · rw [same]
    exact finished
  · rw [forked]
    exact (clientRooms_startBackgroundRewrite _).trans finished

theorem clientRooms_childStep (db : Db) (now : Nat) :
    (db.childStep now).clientRooms = db.clientRooms := by
  rcases childStep_fields db now with ⟨_, _, fields, _⟩
  rw [fields]

theorem clientRooms_handleRoomAdmin (wellFormed : db.WellFormed) (now : Nat) (resp3 : Bool)
    (command : Bytes) (args : List Bytes) :
    (db.handleRoomAdmin now resp3 command args).1.clientRooms = db.clientRooms := by
  unfold handleRoomAdmin
  by_cases isRooms : command = ascii "ROOMS"
  · rw [if_pos isRooms]
  · rw [if_neg isRooms]
    match args with
    | [head, name] =>
        dsimp only
        by_cases isWake : command = ascii "ROOM.WAKE"
        · rw [if_pos isWake]
          exact clientRooms_wakeRoom wellFormed now _
        · rw [if_neg isWake]
          by_cases unknown : name ∉ db.rooms
          · rw [if_pos unknown]
          · rw [if_neg unknown]
            by_cases isHibernate : command = ascii "ROOM.HIBERNATE"
            · rw [if_pos isHibernate]
              by_cases same : name = defaultRoom
              · rw [if_pos same]
              · rw [if_neg same]
                exact clientRooms_hibernate db _
            · rw [if_neg isHibernate]
              by_cases isInfo : command = ascii "ROOM.INFO"
              · rw [if_pos isInfo]
              · rw [if_neg isInfo]
    | [] | [_] | _ :: _ :: _ :: _ => rfl

theorem clientRooms_collectTombstones (db : Db) :
    db.collectTombstones.clientRooms = db.clientRooms := by
  rcases collectTombstones_spec db with same | ⟨_, _, _, _, equal, _⟩
  · rw [same]
  · rw [equal]

theorem clientRooms_handleReplfrontier (db : Db) (now : Nat) (args : List Bytes) :
    (db.handleReplfrontier now args).1.clientRooms = db.clientRooms := by
  unfold handleReplfrontier
  dsimp only
  match args with
  | [head, nodeArg, frontierArg] =>
      dsimp only
      split
      · split
        · rfl
        · exact clientRooms_collectTombstones _
      · rfl
  | [] | [_] | [_, _] | _ :: _ :: _ :: _ :: _ => rfl

theorem clientRoom_setClientRoom (db : Db) (clientFd : Nat) (name : Bytes) (fd : Nat) :
    (db.setClientRoom clientFd name).clientRoom fd =
      if fd = clientFd then name else db.clientRoom fd := by
  unfold setClientRoom clientRoom
  rw [FiniteMap.lookup_insert_if]
  by_cases same : fd = clientFd
  · simp only [if_pos same]
    rfl
  · simp only [if_neg same]

/-- Selecting the room that is already selected. -/
theorem clientRoom_known (db : Db) (clientFd fd : Nat) :
    (db.setClientRoom clientFd (db.clientRoom clientFd)).clientRoom fd =
      db.clientRoom fd := by
  rw [clientRoom_setClientRoom]
  by_cases same : fd = clientFd
  · rw [if_pos same]
    rw [same]
  · rw [if_neg same]

/-- `ROOM` selects the room exactly when its reply is positive. -/
theorem handleRoom_cases (wellFormed : db.WellFormed) (clientFd : Nat) (first name : Bytes) :
    ((db.handleRoom now clientFd [first, name]).2.head? = some 43 ∧
        validRoomName name = true ∧
        ∀ fd, (db.handleRoom now clientFd [first, name]).1.clientRoom fd =
          if fd = clientFd then name else db.clientRoom fd) ∨
      ((db.handleRoom now clientFd [first, name]).2.head? = some 45 ∧
        (db.handleRoom now clientFd [first, name]).1.clientRooms = db.clientRooms) := by
  have quiet := clientRooms_wakeRoom wellFormed now name
  have reply := wakeRoom_reply db now name
  unfold handleRoom
  dsimp only
  rcases equal : db.wakeRoom now name with ⟨woken, _ | err⟩
  · rw [equal] at quiet reply
    rcases reply with ⟨_, valid⟩ | ⟨other, refused, _⟩
    · refine .inl ⟨by simp [ascii], valid, ?_⟩
      intro fd
      rw [clientRoom_setClientRoom]
      unfold clientRoom
      rw [quiet]
    · cases refused
  · rw [equal] at quiet reply
    rcases reply with ⟨accepted, _⟩ | ⟨other, equal, negative⟩
    · cases accepted
    · cases equal
      exact .inr ⟨negative, quiet⟩

theorem clientRoom_eq (same : after.clientRooms = db.clientRooms) (fd : Nat) :
    after.clientRoom fd = db.clientRoom fd := by
  unfold clientRoom
  rw [same]

/-- A command on the connection that is no `ROOM`. -/
theorem clientRooms_runConnection (wellFormed : db.WellFormed) (call : Call) (name : Bytes)
    {kind : ConnectionCommand} (other : kind ≠ .room) :
    (db.runConnection call name kind).1.clientRooms = db.clientRooms := by
  cases kind with
  | ping => rfl
  | echo => rfl
  | command => rfl
  | room => exact absurd rfl other
  | rooms => exact clientRooms_handleRoomAdmin wellFormed _ _ _ _
  | replfrontier => exact clientRooms_handleReplfrontier db _ _
  | rewriteaof => exact clientRooms_startBackgroundRewrite db
  | compact => rfl

/-- A command that is no `ROOM` leaves every selection alone. -/
theorem clientRoom_dispatch (wellFormed : db.WellFormed) (call : Call) {first : Bytes}
    (head : call.args.head? = some first)
    (other : Command.named (upper first) ≠ .connection .room) (fd : Nat) :
    (db.dispatch call (upper first)).1.clientRoom fd = db.clientRoom fd := by
  have known := clientRoom_known db call.clientFd fd
  have knownForm : (db.setClientRoom call.clientFd
      (db.clientRoom call.clientFd)).WellFormed := ⟨wellFormed.exclusive, wellFormed.asleep⟩
  unfold dispatch
  dsimp only
  split
  · exact known
  · exact (clientRoom_eq (clientRooms_runConnection knownForm call _ (by simp)) fd).trans known
  · rename_i kind _ named
    by_cases subscribed : call.subscribed = true
    · rw [if_pos subscribed]
      exact known
    · rw [if_neg subscribed]
      have notRoom : kind ≠ .room := by
        rintro rfl
        exact other named
      exact (clientRoom_eq (clientRooms_runConnection knownForm call _ notRoom) fd).trans known
  · rename_i kind named
    by_cases subscribed : call.subscribed = true
    · rw [if_pos subscribed]
      exact known
    · rw [if_neg subscribed]
      exact (clientRoom_eq (clientRooms_executeInRoom knownForm call _ head named) fd).trans known

/-- A `ROOM` on a connection that is not in subscribe mode. -/
theorem dispatch_room {call : Call} {name : Bytes}
    (named : Command.named name = .connection .room) (listening : call.subscribed = false) :
    db.dispatch call name =
      (db.setClientRoom call.clientFd (db.clientRoom call.clientFd)).handleRoom call.now
        call.clientFd call.args := by
  unfold dispatch
  rw [named]
  simp only [listening, Bool.false_eq_true, if_false]
  rfl

/-- A client has the room it had, or one with a valid name. -/
theorem clientRoom_handleRoom (wellFormed : db.WellFormed) (now clientFd : Nat)
    (args : List Bytes) (fd : Nat) :
    (db.handleRoom now clientFd args).1.clientRoom fd = db.clientRoom fd ∨
      validRoomName ((db.handleRoom now clientFd args).1.clientRoom fd) = true := by
  by_cases shape : ∃ first name, args = [first, name]
  · rcases shape with ⟨first, name, rfl⟩
    rcases handleRoom_cases wellFormed clientFd first name with ⟨_, valid, rooms⟩ | ⟨_, same⟩
    · rw [rooms fd]
      by_cases own : fd = clientFd
      · rw [if_pos own]
        exact .inr valid
      · rw [if_neg own]
        exact .inl rfl
    · exact .inl (clientRoom_eq same fd)
  · left
    unfold handleRoom
    match args with
    | [_, _] => exact absurd ⟨_, _, rfl⟩ shape
    | [] | [_] | _ :: _ :: _ :: _ => rfl

theorem clientRoom_execute {config : Config} (sane : Sane config db) (call : Call)
    (fd : Nat) :
    (db.execute call).1.clientRoom fd = db.clientRoom fd ∨
      validRoomName ((db.execute call).1.clientRoom fd) = true := by
  unfold execute
  cases args : call.args with
  | nil => exact .inl rfl
  | cons first rest =>
      dsimp only
      have begun := sane.begun call
      have head : call.args.head? = some first := by
        rw [args]
        rfl
      rw [← clientRoom_eq (clientRooms_beginCommand db call) fd]
      by_cases named : Command.named (upper first) = .connection .room
      · cases listening : call.subscribed with
        | true =>
            left
            unfold dispatch
            rw [named]
            simp only [listening, if_true]
            exact clientRoom_known _ _ _
        | false =>
            rw [dispatch_room named listening]
            have known := clientRoom_known (db.beginCommand call) call.clientFd fd
            have form : ((db.beginCommand call).setClientRoom call.clientFd
                ((db.beginCommand call).clientRoom call.clientFd)).WellFormed :=
              ⟨begun.wellFormed.exclusive, begun.wellFormed.asleep⟩
            have selected := clientRoom_handleRoom form call.now call.clientFd call.args fd
            rw [known] at selected
            exact selected
      · exact .inl (clientRoom_dispatch begun.wellFormed call head named fd)

theorem clientRoom_execute_of_ne {config : Config} (sane : Sane config db) {call : Call}
    {first : Bytes} (head : call.args.head? = some first)
    (other : Command.named (upper first) ≠ .connection .room) (fd : Nat) :
    (db.execute call).1.clientRoom fd = db.clientRoom fd := by
  rcases List.head?_eq_some_iff.mp head with ⟨rest, args⟩
  unfold execute
  rw [args]
  exact (clientRoom_dispatch (sane.begun call).wellFormed call head other fd).trans
    (clientRoom_eq (clientRooms_beginCommand db call) fd)

theorem validRoomName_default : validRoomName defaultRoom = true := by decide

/-- The watchdog and the rewrites select no room. -/
theorem clientRooms_watchdog (db : Db) (event : Event) :
    (db.step event).clientRooms = db.clientRooms ∨ (∃ call, event = .command call) ∨
      (∃ now fd, event = .cleanup now fd) ∨ ∃ now, event = .restart now := by
  cases event with
  | command call => exact .inr (.inl ⟨call, rfl⟩)
  | cleanup now fd => exact .inr (.inr (.inl ⟨now, fd, rfl⟩))
  | cleanExpired now name =>
      left
      change (db.cleanExpiredKeys now name).clientRooms = _
      unfold cleanExpiredKeys
      by_cases unknown : name ∉ db.rooms
      · rw [if_pos unknown]
      · rw [if_neg unknown]
        rfl
  | hibernateInactive now name =>
      left
      change (db.hibernateInactive now name).clientRooms = _
      unfold hibernateInactive
      dsimp only
      by_cases idle : (db.room name).state = .active ∧ name ≠ defaultRoom ∧
          (db.room name).lastAccessTime + roomIdleMs < now
      · rw [if_pos idle]
        exact clientRooms_hibernate db name
      · rw [if_neg idle]
  | childStep now => exact .inl (clientRooms_childStep db now)
  | childFail now => exact .inl rfl
  | restart now => exact .inr (.inr (.inr ⟨now, rfl⟩))

theorem clientRoom_cleanup (db : Db) (now clientFd fd : Nat) :
    (db.step (.cleanup now clientFd)).clientRoom fd =
      if fd = clientFd then defaultRoom else db.clientRoom fd := by
  change ((db.clientRooms.erase clientFd).lookup fd).getD defaultRoom = _
  rw [FiniteMap.lookup_erase_if]
  by_cases same : fd = clientFd
  · simp only [if_pos same]
    rfl
  · simp only [if_neg same]
    rfl

/-- Whatever happens, a client has the room it had or one with a valid name. -/
theorem clientRoom_step {config : Config} (sane : Sane config db) (event : Event) (fd : Nat) :
    (db.step event).clientRoom fd = db.clientRoom fd ∨
      validRoomName ((db.step event).clientRoom fd) = true := by
  rcases clientRooms_watchdog db event with same | ⟨call, rfl⟩ | ⟨now, other, rfl⟩ | ⟨now, rfl⟩
  · exact .inl (clientRoom_eq same fd)
  · exact clientRoom_execute sane call fd
  · rw [clientRoom_cleanup]
    by_cases equal : fd = other
    · rw [if_pos equal]
      exact .inr validRoomName_default
    · rw [if_neg equal]
      exact .inl rfl
  · have recovered := recovered_recover db.config db.aof db.snapshots now sane.tidy.sound
    have unselected : (db.step (.restart now)).clientRoom fd = defaultRoom := by
      change (recover db.config db.aof db.snapshots now).clientRoom fd = _
      rw [clientRoom, recovered.clientRooms]
      rfl
    rw [unselected]
    exact .inr validRoomName_default

end Db

end SomniumDB
