import SomniumDB.Abstract.Executed
import SomniumDB.Storage.Delivery

/-! # The rooms of a pipeline

The replicator builds a whole pipeline on the assumption that every `ROOM` in
it succeeds; on the peer a `ROOM` selects its room exactly when the room is
admitted. -/

namespace SomniumDB

open Bytes Replicator

/-! ## What the replicator assumes -/

def Replicator.Item.isRoom : Item → Bool
  | .room _ => true
  | .data _ _ => false

/-- The room that a pipeline leaves selected if every `ROOM` succeeds. -/
def roomAfter (selected : Bytes) : List Item → Bytes
  | [] => selected
  | .room name :: rest => roomAfter name rest
  | .data _ _ :: rest => roomAfter selected rest

/-- Every command of a pipeline is in the room that is selected if every `ROOM`
succeeds. -/
def Selects (selected : Bytes) : List Item → Prop
  | [] => True
  | .room name :: rest => Selects name rest
  | .data room _ :: rest => room = selected ∧ Selects selected rest

theorem roomAfter_append (selected : Bytes) (front back : List Item) :
    roomAfter selected (front ++ back) = roomAfter (roomAfter selected front) back := by
  induction front generalizing selected with
  | nil => rfl
  | cons item rest induction =>
      cases item with
      | room name => exact induction name
      | data room args => exact induction selected

theorem selects_append (selected : Bytes) (front back : List Item) :
    Selects selected (front ++ back) ↔
      Selects selected front ∧ Selects (roomAfter selected front) back := by
  induction front generalizing selected with
  | nil => simp [Selects, roomAfter]
  | cons item rest induction =>
      cases item with
      | room name => exact induction name
      | data room args =>
          change _ ∧ Selects selected (rest ++ back) ↔ (_ ∧ Selects selected rest) ∧ _
          rw [induction selected, and_assoc]
          rfl

theorem Selects.left {selected : Bytes} {front back : List Item}
    (selects : Selects selected (front ++ back)) : Selects selected front :=
  ((selects_append selected front back).mp selects).1

/-- Commands that select no room. -/
def Replicator.Item.Quiet : Item → Prop
  | .room _ => True
  | .data _ args => ∃ first, args.head? = some first ∧
      Command.named (upper first) ≠ .connection .room

theorem quiet_recordCommands {nodeId : Nat} {tokens args : List Bytes} (room : Bytes)
    (member : args ∈ recordCommands nodeId tokens) : (Item.data room args).Quiet := by
  unfold recordCommands at member
  dsimp only at member
  by_cases enough : 7 ≤ tokens.length ∧ tokens[tokens.length - 4]?.getD [] = AofRecord.kMetaToken ∧
      FsUtil.parseU64 (tokens[tokens.length - 1]?.getD []) = some nodeId
  · rw [if_pos enough] at member
    by_cases deletes : upper (tokens[1]?.getD []) = ascii "DEL" ∨
        upper (tokens[1]?.getD []) = ascii "CRDTDEL"
    · rw [if_pos deletes] at member
      rw [List.mem_singleton.mp member]
      exact ⟨_, rfl, by decide⟩
    · rw [if_neg deletes] at member
      rcases List.mem_map.mp member with ⟨pair, _, rfl⟩
      exact ⟨_, rfl, by decide⟩
  · rw [if_neg enough] at member
    cases member

/-- What has been built so far selects the rooms of its records. -/
structure Replicator.Build.Steers (build : Build) (known : Bytes) : Prop where
  selects : Selects known build.out
  room : build.room = roomAfter known build.out
  quiet : ∀ item ∈ build.out, item.Quiet

namespace Replicator.Build.Steers

variable {build : Build} {known : Bytes}

theorem send (steers : build.Steers known) {room : Bytes} {args : List Bytes}
    (quiet : (Item.data room args).Quiet) : (build.send room args).Steers known := by
  unfold Build.send
  by_cases apart : room ≠ build.room
  · rw [if_pos apart]
    refine ⟨(selects_append _ _ _).mpr ⟨steers.selects, ?_⟩, ?_, ?_⟩
    · exact ⟨rfl, trivial⟩
    · exact (roomAfter_append known build.out [.room room, .data room args]).symm
    · intro item member
      rcases List.mem_append.mp member with old | new
      · exact steers.quiet item old
      · simp only [List.mem_cons, List.not_mem_nil, or_false] at new
        rcases new with rfl | rfl
        · trivial
        · exact quiet
  · rw [if_neg apart]
    rw [ne_eq, not_not, steers.room] at apart
    refine ⟨(selects_append _ _ _).mpr ⟨steers.selects, ?_⟩, ?_, ?_⟩
    · exact ⟨apart, trivial⟩
    · exact apart.trans (roomAfter_append known build.out [.data room args]).symm
    · intro item member
      rcases List.mem_append.mp member with old | new
      · exact steers.quiet item old
      · rw [List.mem_singleton.mp new]
        exact quiet

theorem record (steers : build.Steers known) (nodeId : Nat) (tokens : List Bytes)
    (stop : Nat) : (build.record nodeId tokens stop).Steers known := by
  have sent : ∀ (commands : List (List Bytes)) (state : Build), state.Steers known →
      (∀ args ∈ commands, (Item.data (tokens.head?.getD []) args).Quiet) →
      (commands.foldl (fun state args => state.send (tokens.head?.getD []) args)
        state).Steers known := by
    intro commands
    induction commands with
    | nil => exact fun _ steers _ => steers
    | cons args rest induction =>
        intro state steers quiet
        exact induction _ (steers.send (quiet args List.mem_cons_self)) fun other member =>
          quiet other (List.mem_cons_of_mem _ member)
  have steered := sent (recordCommands nodeId tokens) build steers fun args member =>
    quiet_recordCommands _ member
  exact ⟨steered.selects, steered.room, steered.quiet⟩

theorem buildLoop (nodeId offset : Nat) (buf : Bytes) (fuel pos : Nat)
    (steers : build.Steers known) :
    (buildLoop nodeId offset buf fuel pos build).1.Steers known := by
  induction fuel generalizing pos build with
  | zero => exact steers
  | succ fuel induction =>
      unfold Replicator.buildLoop
      split
      · exact induction _ (steers.record nodeId _ _)
      · exact steers
      · exact steers

end Replicator.Build.Steers

/-- On an open connection the room is still known. -/
theorem ready_of_connected {peer : Peer} (file : AofFile) (connected : peer.connected = true) :
    (connect (align peer file)).room = peer.room ∧
      (connect (align peer file)).connected = true := by
  have aligned : (align peer file).room = peer.room ∧
      (align peer file).connected = peer.connected := by
    unfold align
    by_cases moved : file.inode ≠ peer.inode ∨ file.bytes.length < peer.offset
    · rw [if_pos moved]
      exact ⟨rfl, rfl⟩
    · rw [if_neg moved]
      exact ⟨rfl, rfl⟩
  rw [connect, aligned.2, connected, if_pos rfl]
  exact ⟨aligned.1, aligned.2.trans connected⟩

theorem prepare_peer (nodeId frontier : Nat) {peer : Peer} (file : AofFile)
    (connected : peer.connected = true) :
    (prepare nodeId frontier peer file).1.room = peer.room ∧
      (prepare nodeId frontier peer file).1.connected = true := by
  have ready := ready_of_connected file connected
  unfold prepare
  dsimp only
  by_cases grows : (readBatch nodeId (connect (align peer file)) file).2 = true ∧
      0 < (connect (align peer file)).offset
  · rw [if_pos grows]
    exact ready
  · rw [if_neg grows]
    exact ready

/-- The pipeline of a round and the room it is expected to leave selected. -/
theorem steers_prepare (nodeId frontier : Nat) {peer : Peer} (file : AofFile)
    (connected : peer.connected = true) :
    Selects peer.room (prepare nodeId frontier peer file).2.items ∧
      (prepare nodeId frontier peer file).2.room =
        roomAfter peer.room (prepare nodeId frontier peer file).2.items ∧
      ∀ item ∈ (prepare nodeId frontier peer file).2.items, item.Quiet := by
  have built : (readBatch nodeId (connect (align peer file)) file).1.Steers peer.room := by
    have empty : Build.Steers { room := (connect (align peer file)).room } peer.room :=
      ⟨trivial, (ready_of_connected file connected).1, by simp⟩
    unfold readBatch
    dsimp only
    split <;> exact empty.buildLoop _ _ _ _ _
  exact ⟨built.selects, built.room, built.quiet⟩

/-! ## What the peer does -/

namespace Db

variable {config : Config} {db : Db} {fd : Nat}

theorem admits_iff (db : Db) (now : Nat) (name : Bytes) :
    (db.wakeRoom now name).2 = none ↔ db.Admits name := by
  have woken := opens_iff db now name
  change _ ↔ validRoomName name = true ∧
    (name ∈ db.rooms ∨ db.rooms.toPairs.length < db.config.maxRooms) ∧ db.Opens name
  unfold wakeRoom
  by_cases invalid : (!validRoomName name) = true
  · rw [if_pos invalid]
    simp at invalid
    simp [invalid]
  · rw [if_neg invalid]
    simp only [Bool.not_eq_true', Bool.not_eq_false] at invalid
    by_cases many : name ∉ db.rooms ∧ db.config.maxRooms ≤ db.rooms.toPairs.length
    · rw [if_pos many]
      simp [many.1, Nat.not_lt.mpr many.2]
    · rw [if_neg many]
      have registered : name ∈ db.rooms ∨ db.rooms.toPairs.length < db.config.maxRooms := by
        rw [not_and_or, not_not] at many
        exact many.imp id Nat.lt_of_not_le
      simp only [invalid, registered, true_and, ← woken]
      by_cases awake : ((db.findRoom name).activate now name false).2 = true
      · rw [if_pos awake]
        simp [awake]
      · rw [if_neg awake]
        simp [awake]

/-- `ROOM` selects the room exactly when it is admitted, and only then its reply
is positive. -/
theorem execute_room (sane : Sane config db) {call : Call} {name : Bytes}
    (args : call.args = [ascii "ROOM", name]) (listening : call.subscribed = false) :
    ((db.beginCommand call).Admits name ∧ (db.execute call).2.head? = some 43 ∧
        (db.execute call).1.clientRoom call.clientFd = name) ∨
      (¬ (db.beginCommand call).Admits name ∧ (db.execute call).2.head? = some 45 ∧
        (db.execute call).1.clientRoom call.clientFd = db.clientRoom call.clientFd) := by
  have begun := sane.begun call
  generalize knownEq : (db.beginCommand call).setClientRoom call.clientFd
    ((db.beginCommand call).clientRoom call.clientFd) = known
  have form : known.WellFormed := by
    rw [← knownEq]
    exact ⟨begun.wellFormed.exclusive, begun.wellFormed.asleep⟩
  have admits : known.Admits name ↔ (db.beginCommand call).Admits name := by
    rw [← knownEq]
    rfl
  have room : known.clientRoom call.clientFd = db.clientRoom call.clientFd := by
    rw [← knownEq, clientRoom_known]
    exact clientRoom_eq (clientRooms_beginCommand db call) call.clientFd
  have executed : db.execute call = known.handleRoom call.now call.clientFd call.args := by
    unfold execute
    rw [args]
    dsimp only
    rw [dispatch_room (by decide) listening, knownEq, args]
  rw [executed, args]
  have quiet := clientRooms_wakeRoom form call.now name
  have reply := wakeRoom_reply known call.now name
  have admitted := admits_iff known call.now name
  rw [admits] at admitted
  unfold handleRoom
  dsimp only
  rcases equal : known.wakeRoom call.now name with ⟨woken, _ | err⟩
  · rw [equal] at admitted
    refine .inl ⟨admitted.mp rfl, by simp [ascii], ?_⟩
    rw [clientRoom_setClientRoom, if_pos rfl]
  · rw [equal] at quiet reply admitted
    rcases reply with ⟨accepted, _⟩ | ⟨other, same, negative⟩
    · cases accepted
    · cases same
      refine .inr ⟨?_, negative, ?_⟩
      · intro yes
        cases admitted.mpr yes
      · exact (clientRoom_eq quiet _).trans room

/-- A handler runs in the room that the client has selected. -/
theorem ranIn_eq {call : Call} {ran : Bytes} (runs : db.ranIn call = some ran) :
    ran = db.clientRoom call.clientFd := by
  have room := clientRoom_eq (clientRooms_beginCommand db call) call.clientFd
  unfold ranIn at runs
  split at runs
  · cases runs
  · split at runs
    · dsimp only at runs
      split at runs
      · rw [← room]
        exact (Option.some.inj runs).symm
      · cases runs
    · cases runs

/-- Another client's command leaves the selection of `fd` alone. -/
theorem clientRoom_foreign_execute (sane : Sane config db) {call : Call}
    (foreign : call.clientFd ≠ fd) : (db.execute call).1.clientRoom fd = db.clientRoom fd := by
  cases args : call.args with
  | nil =>
      unfold execute
      rw [args]
  | cons first rest =>
      have head : call.args.head? = some first := by
        rw [args]
        rfl
      by_cases named : Command.named (upper first) = .connection .room
      · have begun := sane.begun call
        have same := clientRoom_eq (clientRooms_beginCommand db call) fd
        have known := clientRoom_known (db.beginCommand call) call.clientFd fd
        have form : ((db.beginCommand call).setClientRoom call.clientFd
            ((db.beginCommand call).clientRoom call.clientFd)).WellFormed :=
          ⟨begun.wellFormed.exclusive, begun.wellFormed.asleep⟩
        have executed : db.execute call =
            (db.beginCommand call).dispatch call (upper first) := by
          unfold execute
          rw [args]
        rw [executed]
        cases listening : call.subscribed with
        | true =>
            unfold dispatch
            rw [named]
            simp only [listening, if_true]
            exact known.trans same
        | false =>
            rw [dispatch_room named listening]
            by_cases shape : ∃ command name, call.args = [command, name]
            · rcases shape with ⟨command, name, shape⟩
              rw [shape]
              rcases handleRoom_cases form call.clientFd command name with
                ⟨_, _, rooms⟩ | ⟨_, quiet⟩
              · rw [rooms fd, if_neg (Ne.symm foreign)]
                exact known.trans same
              · rw [clientRoom_eq quiet]
                exact known.trans same
            · unfold handleRoom
              split
              · rename_i command name shaped
                exact absurd ⟨command, name, shaped⟩ shape
              · exact known.trans same
      · exact clientRoom_execute_of_ne sane head named fd

/-- Events elsewhere leave the selection of `fd` alone. -/
theorem clientRoom_foreign (sane : Sane config db) {event : Event} (foreign : event.Foreign fd) :
    (db.step event).clientRoom fd = db.clientRoom fd := by
  rcases clientRooms_watchdog db event with same | ⟨call, rfl⟩ | ⟨now, other, rfl⟩ | ⟨now, rfl⟩
  · exact clientRoom_eq same fd
  · exact clientRoom_foreign_execute sane foreign
  · rw [clientRoom_cleanup, if_neg (Ne.symm foreign)]
  · exact foreign.elim

theorem clientRoom_foreign_run (sane : Sane config db) {events : List Event}
    (foreign : ∀ event ∈ events, event.Foreign fd) :
    (db.run events).clientRoom fd = db.clientRoom fd := by
  induction events generalizing db with
  | nil => rfl
  | cons event rest induction =>
      rw [run_cons, induction (sane.stepped event) fun other member =>
        foreign other (List.mem_cons_of_mem _ member)]
      exact clientRoom_foreign sane (foreign event List.mem_cons_self)

end Db

end SomniumDB
