import SomniumDB.Abstract.Pipeline

/-! # Replicated commands run in the room of their record

A refused `ROOM` leaves the old room selected on the connection, and the
commands of the pipeline that follow it run there. -/

namespace SomniumDB

open Bytes Replicator Db

variable {config : Config} {db : Db} {fd : Nat}

/-- Every replicated command that runs, runs in the room that its record
names. -/
def InRecordRoom (executions : List Execution) : Prop :=
  ∀ execution ∈ executions, ∀ room args, execution.item = .data room args →
    ∀ ran, execution.before.ranIn execution.call = some ran → ran = room

/-- The same, as a check of one execution after the other. -/
def inRecordRoom (executions : List Execution) : Bool :=
  executions.all fun execution =>
    match execution.item with
    | .room _ => true
    | .data room _ => (execution.before.ranIn execution.call).all fun ran => ran = room

theorem inRecordRoom_iff (executions : List Execution) :
    inRecordRoom executions = true ↔ InRecordRoom executions := by
  unfold inRecordRoom InRecordRoom
  rw [List.all_eq_true]
  refine forall₂_congr fun execution member => ?_
  cases execution.item with
  | room name => simp
  | data room args => simp [Option.all_eq_true]

instance (executions : List Execution) : Decidable (InRecordRoom executions) :=
  decidable_of_iff _ (inRecordRoom_iff executions)

/-- A `ROOM` after which the room is selected: it is admitted, or it names the
room that is selected already. -/
def Execution.Selects (execution : Execution) (name : Bytes) : Prop :=
  (execution.before.beginCommand execution.call).Admits name ∨
    execution.before.clientRoom execution.call.clientFd = name

/-- The last `ROOM` among some executions. -/
def lastRoom (executions : List Execution) : Option Execution :=
  (executions.filter fun execution => execution.item.isRoom).getLast?

/-- Before each command that runs, the last `ROOM` of the pipeline has selected
the room; when there is none, the room known to be selected has a name. -/
def RoomsSelected (known : Bytes) (executions : List Execution) : Prop :=
  ∀ front execution back, executions = front ++ execution :: back →
    ∀ room args, execution.item = .data room args →
      (execution.before.ranIn execution.call).isSome →
        match lastRoom front with
        | none => known ≠ []
        | some selection => selection.Selects room

theorem lastRoom_cons (head : Execution) (tail : List Execution) :
    lastRoom (head :: tail) =
      (lastRoom tail).or (if head.item.isRoom then some head else none) := by
  unfold lastRoom
  rw [List.filter_cons]
  by_cases same : head.item.isRoom = true
  · simp only [if_pos same]
    rw [List.getLast?_cons]
    cases (tail.filter fun execution => execution.item.isRoom).getLast? <;> rfl
  · simp only [if_neg same]
    rw [Option.or_none]

/-- The selection on the connection after one command of a pipeline. -/
theorem clientRoom_item (sane : Sane config db) (arrival : Arrival) {item : Item}
    (quiet : item.Quiet) :
    (∃ name, item = .room name ∧
        ((db.execute (arrival.call fd item.args)).1.clientRoom fd = name ↔
          (db.beginCommand (arrival.call fd item.args)).Admits name ∨
            db.clientRoom fd = name)) ∨
      (item.isRoom = false ∧
        (db.execute (arrival.call fd item.args)).1.clientRoom fd = db.clientRoom fd) := by
  cases item with
  | room name =>
      refine .inl ⟨name, rfl, ?_⟩
      have shape : (arrival.call fd (Item.args (.room name))).args = [ascii "ROOM", name] := rfl
      rcases execute_room sane shape rfl with ⟨admits, _, selected⟩ | ⟨refused, _, selected⟩
      · exact ⟨fun _ => .inl admits, fun _ => selected⟩
      · constructor
        · intro same
          exact .inr (selected.symm.trans same)
        · rintro (admits | same)
          · exact absurd admits refused
          · exact selected.trans same
  | data room args =>
      rcases quiet with ⟨first, head, named⟩
      exact .inr ⟨rfl, clientRoom_execute_of_ne sane head named fd⟩

theorem executions_items (db : Db) (fd : Nat) (pairs : List (Item × Arrival)) :
    (db.executions fd pairs).map Execution.item = pairs.map Prod.fst := by
  induction pairs generalizing db with
  | nil => rfl
  | cons pair rest induction => exact congrArg (pair.1 :: ·) (induction _)

theorem executions_fd {pairs : List (Item × Arrival)} {execution : Execution}
    (member : execution ∈ db.executions fd pairs) : execution.call.clientFd = fd := by
  induction pairs generalizing db with
  | nil => cases member
  | cons pair rest induction =>
      rcases List.mem_cons.mp member with rfl | later
      · rfl
      · exact induction later

theorem selects_zip {known : Bytes} {items : List Item} (selects : Selects known items)
    (arrivals : List Arrival) : Selects known ((items.zip arrivals).map Prod.fst) := by
  induction items generalizing known arrivals with
  | nil => trivial
  | cons item rest induction =>
      cases arrivals with
      | nil => trivial
      | cons arrival later =>
          cases item with
          | room name => exact induction selects later
          | data room args => exact ⟨selects.1, induction selects.2 later⟩

/-- Without a `ROOM` before it, a command is in the room selected at the start. -/
theorem room_eq_of_lastRoom {known room : Bytes} {args : List Bytes} {front : List Execution}
    {back : List Item} (unselected : lastRoom front = none)
    (selects : Selects known (front.map Execution.item ++ .data room args :: back)) :
    room = known := by
  induction front with
  | nil => exact selects.1
  | cons head tail induction =>
      rw [lastRoom_cons, Option.or_eq_none_iff] at unselected
      rcases unselected with ⟨earlier, plain⟩
      cases item : head.item with
      | room name => simp [item, Item.isRoom] at plain
      | data other others =>
          rw [List.map_cons, item] at selects
          exact induction earlier selects.2

/-- Whether the selection is what the replicator assumes depends on the last
`ROOM` only. `sure` says whether it is so at the start. -/
theorem selected_iff (sane : Sane config db) {pairs : List (Item × Arrival)}
    (quiet : ∀ pair ∈ pairs, pair.1.Quiet) (foreign : ∀ pair ∈ pairs, pair.2.Foreign fd)
    {known : Bytes} (selects : Selects known (pairs.map Prod.fst)) {sure : Prop}
    (start : db.clientRoom fd = known ↔ sure) {front back : List Execution}
    {execution : Execution} (divided : db.executions fd pairs = front ++ execution :: back)
    {room : Bytes} {args : List Bytes} (data : execution.item = .data room args) :
    execution.before.clientRoom fd = room ↔
      match lastRoom front with
      | none => sure
      | some selection => selection.Selects room := by
  induction pairs generalizing db known sure front with
  | nil => cases front <;> cases divided
  | cons pair rest induction =>
      rcases pair with ⟨item, arrival⟩
      have ran : Sane config (db.run arrival.before) := sane.ran arrival.before
      have elsewhere : (db.run arrival.before).clientRoom fd = db.clientRoom fd :=
        clientRoom_foreign_run sane (foreign _ List.mem_cons_self)
      have executed := ran.executed (arrival.call fd item.args)
      have quietRest : ∀ pair ∈ rest, pair.1.Quiet := fun pair member =>
        quiet pair (List.mem_cons_of_mem _ member)
      have foreignRest : ∀ pair ∈ rest, pair.2.Foreign fd := fun pair member =>
        foreign pair (List.mem_cons_of_mem _ member)
      change _ :: _ = _ at divided
      cases front with
      | nil =>
          rcases List.cons.inj divided with ⟨here, _⟩
          subst execution
          change item = .data room args at data
          subst item
          change (db.run arrival.before).clientRoom fd = room ↔ sure
          rw [elsewhere, selects.1]
          exact start
      | cons head front =>
          rw [List.cons_append] at divided
          rcases List.cons.inj divided with ⟨here, later⟩
          have items := (congrArg (List.map Execution.item) later).symm
          rw [executions_items, List.map_append, List.map_cons, data] at items
          rw [lastRoom_cons, ← here]
          rcases clientRoom_item ran arrival (quiet _ List.mem_cons_self) with
            ⟨name, isRoom, selected⟩ | ⟨plain, same⟩
          · change item = .room name at isRoom
            subst item
            have tail := induction executed quietRest foreignRest selects selected later
            rw [tail]
            cases found : lastRoom front with
            | none =>
                have within : Selects name (rest.map Prod.fst) := selects
                rw [← items] at within
                rw [room_eq_of_lastRoom found within]
                rfl
            | some selection => rfl
          · cases item with
            | room name => cases plain
            | data other others =>
                have tail := induction executed quietRest foreignRest selects.2
                  ((same.trans elsewhere) ▸ start) later
                rw [tail]
                cases lastRoom front <;> rfl

/-! ## Sessions -/

/-- Every client has a room with a name. -/
def Named (db : Db) : Prop :=
  ∀ fd, db.clientRoom fd ≠ []

theorem Named.stepped (named : Named db) (sane : Sane config db) (event : Event) :
    Named (db.step event) := by
  intro fd
  rcases clientRoom_step sane event fd with same | valid
  · rw [same]
    exact named fd
  · intro empty
    rw [empty] at valid
    cases valid

theorem Named.ran (named : Named db) (sane : Sane config db) (events : List Event) :
    Named (db.run events) := by
  induction events generalizing db with
  | nil => exact named
  | cons event rest induction => exact induction (named.stepped sane event) (sane.stepped event)

theorem named_of_reachable (reachable : Reachable config db) : Named db := by
  rcases reachable with ⟨start, events, rfl⟩
  refine Named.ran ?_ (sane_fresh config start) events
  intro fd
  have recovered := recovered_recover config [] ∅ start (by simp)
  rw [clientRoom, fresh, recovered.clientRooms]
  exact (by decide : defaultRoom ≠ [])

/-- What a delivery keeps. -/
theorem delivered_keeps (fd : Nat) (sane : Sane config db) (named : Named db)
    (commands : List (List Bytes × Arrival)) :
    Sane config (db.deliver fd commands).1 ∧ Named (db.deliver fd commands).1 := by
  induction commands generalizing db with
  | nil => exact ⟨sane, named⟩
  | cons command rest induction =>
      have ran := sane.ran command.2.before
      exact induction (ran.executed _)
        ((named.ran sane command.2.before).stepped ran (.command (command.2.call fd command.1)))

theorem deliver_append (db : Db) (fd : Nat) (front back : List (List Bytes × Arrival)) :
    db.deliver fd (front ++ back) =
      (((db.deliver fd front).1.deliver fd back).1,
        (db.deliver fd front).2 ++ ((db.deliver fd front).1.deliver fd back).2) := by
  induction front generalizing db with
  | nil => rfl
  | cons command rest induction =>
      simp only [List.cons_append, deliver, induction]

theorem length_deliver (db : Db) (fd : Nat) (commands : List (List Bytes × Arrival)) :
    (db.deliver fd commands).2.length = commands.length := by
  induction commands generalizing db with
  | nil => rfl
  | cons command rest induction => exact congrArg (· + 1) (induction _)

/-- When every command of the pipeline is accepted, the room that the replicator
expects is selected. -/
theorem clientRoom_deliver (sane : Sane config db) {pairs : List (Item × Arrival)}
    (quiet : ∀ pair ∈ pairs, pair.1.Quiet) (foreign : ∀ pair ∈ pairs, pair.2.Foreign fd)
    (accepted : ∀ reply ∈ (db.deliver fd (pairs.map fun pair => (pair.1.args, pair.2))).2,
      reply.head? = some 43) :
    (db.deliver fd (pairs.map fun pair => (pair.1.args, pair.2))).1.clientRoom fd =
      roomAfter (db.clientRoom fd) (pairs.map Prod.fst) := by
  induction pairs generalizing db with
  | nil => rfl
  | cons pair rest induction =>
      rcases pair with ⟨item, arrival⟩
      have ran : Sane config (db.run arrival.before) := sane.ran arrival.before
      have elsewhere : (db.run arrival.before).clientRoom fd = db.clientRoom fd :=
        clientRoom_foreign_run sane (foreign _ List.mem_cons_self)
      have tail := induction (ran.executed (arrival.call fd item.args))
        (fun pair member => quiet pair (List.mem_cons_of_mem _ member))
        (fun pair member => foreign pair (List.mem_cons_of_mem _ member))
        (fun reply member => accepted reply (List.mem_cons_of_mem _ member))
      refine tail.trans ?_
      cases item with
      | room name =>
          have shape : (arrival.call fd (Item.args (.room name))).args = [ascii "ROOM", name] :=
            rfl
          have reply := accepted _ List.mem_cons_self
          rcases execute_room ran shape rfl with ⟨_, _, selected⟩ | ⟨_, refused, _⟩
          · exact congrArg (roomAfter · (rest.map Prod.fst)) selected
          · exact absurd (reply.symm.trans refused) (by simp)
      | data room args =>
          rcases quiet _ List.mem_cons_self with ⟨first, head, named⟩
          change roomAfter (((db.run arrival.before).execute (arrival.call fd args)).1.clientRoom
            fd) _ = _
          rw [clientRoom_execute_of_ne ran head named fd, elsewhere]
          rfl

/-- Commands that are no `ROOM` leave the selection alone. -/
theorem clientRoom_deliver_quiet (sane : Sane config db) {commands : List (List Bytes × Arrival)}
    (quiet : ∀ command ∈ commands, ∃ first, command.1.head? = some first ∧
      Command.named (upper first) ≠ .connection .room)
    (foreign : ∀ command ∈ commands, command.2.Foreign fd) :
    (db.deliver fd commands).1.clientRoom fd = db.clientRoom fd := by
  induction commands generalizing db with
  | nil => rfl
  | cons command rest induction =>
      have ran := sane.ran command.2.before
      rcases quiet _ List.mem_cons_self with ⟨first, head, named⟩
      refine (induction (ran.executed (command.2.call fd command.1))
        (fun other member => quiet other (List.mem_cons_of_mem _ member))
        (fun other member => foreign other (List.mem_cons_of_mem _ member))).trans ?_
      rw [clientRoom_execute_of_ne ran head named fd]
      exact clientRoom_foreign_run sane (foreign _ List.mem_cons_self)

/-- The confirmed replies include all of the first ones. -/
theorem accepted_of_ackedOf {front back : List Bytes}
    (acked : ackedOf (front ++ back) = front.length) :
    ∀ reply ∈ front, reply.head? = some 43 := by
  have taken : (front ++ back).takeWhile (fun reply => reply.head? = some 43) = front :=
    (List.prefix_of_prefix_length_le (List.takeWhile_prefix _) (List.prefix_append front back)
      acked.le).eq_of_length acked
  intro reply member
  rw [← taken] at member
  simpa using List.all_eq_true.mp List.all_takeWhile reply member

/-- Two starts end in the same room, unless no room is selected at all. -/
theorem roomAfter_cases (left right : Bytes) (items : List Item) :
    roomAfter left items = roomAfter right items ∨
      (roomAfter left items = left ∧ roomAfter right items = right) := by
  induction items with
  | nil => exact .inr ⟨rfl, rfl⟩
  | cons item rest induction =>
      cases item with
      | room name => exact .inl rfl
      | data room args => exact induction

/-- What holds between rounds: the replicator knows the room selected on its
connection, or knows that it does not. -/
structure Linked (config : Config) (fd : Nat) (peer : Peer) (db : Db) : Prop where
  sane : Sane config db
  named : Named db
  connected : peer.connected = true
  room : peer.room = [] ∨ peer.room = db.clientRoom fd

theorem closing_cases (nodeId frontier : Nat) (peer : Peer) (file : AofFile) :
    (prepare nodeId frontier peer file).2.closing =
        some [ascii "REPLFRONTIER", decimal nodeId, decimal frontier] ∨
      (prepare nodeId frontier peer file).2.closing = some [ascii "PING"] ∨
      (prepare nodeId frontier peer file).2.closing = none := by
  simp only [prepare]
  split_ifs <;> simp

theorem closing_quiet {nodeId frontier : Nat} {peer : Peer} {file : AofFile} {args : List Bytes}
    (closing : (prepare nodeId frontier peer file).2.closing = some args) :
    ∃ first, args.head? = some first ∧ Command.named (upper first) ≠ .connection .room := by
  rcases closing_cases nodeId frontier peer file with same | same | same
  · cases same.symm.trans closing
    exact ⟨_, rfl, by decide⟩
  · cases same.symm.trans closing
    exact ⟨_, rfl, by decide⟩
  · cases same.symm.trans closing

theorem Linked.shipped {nodeId : Nat} {peer : Peer} (linked : Linked config fd peer db)
    (frontier : Nat) (file : AofFile) (arrivals : List Arrival)
    (foreign : ∀ arrival ∈ arrivals, arrival.Foreign fd)
    (complete : arrivals.length = (prepare nodeId frontier peer file).2.commands.length) :
    Linked config fd
      (settle (prepare nodeId frontier peer file).1 (prepare nodeId frontier peer file).2
        (some (db.deliver fd
          ((prepare nodeId frontier peer file).2.commands.zip arrivals)).2))
      (db.deliver fd ((prepare nodeId frontier peer file).2.commands.zip arrivals)).1 := by
  rcases steers_prepare nodeId frontier file linked.connected with ⟨_, expected, quiet⟩
  have samePeer := prepare_peer nodeId frontier file linked.connected
  have closing := fun args => @closing_quiet nodeId frontier peer file args
  generalize prepare nodeId frontier peer file = prepared at *
  rcases prepared with ⟨ready, round⟩
  dsimp only at *
  rcases delivered_keeps fd linked.sane linked.named (round.commands.zip arrivals) with
    ⟨sane, named⟩
  refine ⟨sane, named, rfl, ?_⟩
  obtain ⟨front, back, divided, enough⟩ : ∃ front back, arrivals = front ++ back ∧
      front.length = round.items.length :=
    ⟨arrivals.take round.items.length, arrivals.drop round.items.length,
      (List.take_append_drop _ _).symm, by
        rw [List.length_take, complete, Round.commands]
        simp⟩
  have zipped : round.commands.zip arrivals =
      ((round.items.zip front).map fun pair => (pair.1.args, pair.2)) ++
        round.closing.toList.zip back := by
    rw [divided, Round.commands, List.zip_append (by simp [enough]), List.zip_map_left]
    rfl
  have arrives : ∀ pair ∈ round.items.zip front, pair.1 ∈ round.items ∧ pair.2 ∈ arrivals := by
    intro pair member
    rcases List.of_mem_zip member with ⟨item, arrival⟩
    exact ⟨item, divided ▸ List.mem_append_left _ arrival⟩
  have items : (round.items.zip front).map Prod.fst = round.items :=
    List.map_fst_zip enough.ge
  have first := (delivered_keeps fd linked.sane linked.named
    ((round.items.zip front).map fun pair => (pair.1.args, pair.2))).1
  rw [zipped, deliver_append]
  have closed : (((db.deliver fd
      ((round.items.zip front).map fun pair => (pair.1.args, pair.2))).1.deliver fd
        (round.closing.toList.zip back)).1).clientRoom fd =
      (db.deliver fd
        ((round.items.zip front).map fun pair => (pair.1.args, pair.2))).1.clientRoom fd := by
    refine clientRoom_deliver_quiet first ?_ ?_
    · intro command member
      exact closing command.1 (Option.mem_toList.mp (List.of_mem_zip member).1)
    · intro command member
      exact foreign command.2 (divided ▸ List.mem_append_right _ (List.of_mem_zip member).2)
  rw [closed]
  simp only [settle, Option.map_some, Option.getD_some]
  by_cases some : 0 < round.items.length
  · rw [if_pos some]
    by_cases acked : ackedOf ((deliver fd db ((round.items.zip front).map fun pair =>
        (pair.1.args, pair.2))).2 ++ (deliver fd (deliver fd db ((round.items.zip front).map
          fun pair => (pair.1.args, pair.2))).1 (round.closing.toList.zip back)).2) =
            round.items.length
    · rw [if_pos acked]
      have accepted := accepted_of_ackedOf (acked.trans (by
        rw [length_deliver, List.length_map, List.length_zip, enough, min_self]))
      have selected := clientRoom_deliver linked.sane
        (fun pair member => quiet pair.1 (arrives pair member).1)
        (fun pair member => foreign pair.2 (arrives pair member).2) accepted
      rw [items] at selected
      rw [selected, expected]
      rcases roomAfter_cases peer.room (db.clientRoom fd) round.items with same | ⟨left, right⟩
      · exact .inr same
      · rw [left, right]
        exact linked.room
    · rw [if_neg acked]
      exact .inl rfl
  · rw [if_neg some]
    have none : round.items = [] := List.length_eq_zero_iff.mp (by omega)
    rw [samePeer.1, none]
    exact linked.room

theorem linked_of_session {nodeId : Nat} {peer : Peer}
    (session : Session nodeId config fd peer db) : Linked config fd peer db := by
  induction session with
  | opened peer reachable unknown =>
      exact ⟨sane_of_reachable reachable, named_of_reachable reachable, rfl, .inl rfl⟩
  | elsewhere session event foreign induction =>
      refine ⟨induction.sane.stepped event, induction.named.stepped induction.sane event,
        induction.connected, ?_⟩
      rw [clientRoom_foreign induction.sane foreign]
      exact induction.room
  | shipped session frontier file arrivals foreign complete induction =>
      exact induction.shipped frontier file arrivals foreign complete

/-- In a round of the replicator, over any content of the log and in any state
of the peer, whatever the peer does between the commands and wherever the
connection breaks: every replicated command that runs does so in the room its
record names, exactly when every `ROOM` that it relies on is admitted or names
the room already selected, and none relies on an empty room name. -/
theorem runs_in_record_room_iff (nodeId : Nat) (config : Config) (fd : Nat) (peer : Peer)
    (db : Db) (session : Session nodeId config fd peer db) (frontier : Nat) (file : AofFile)
    (arrivals : List Arrival) (foreign : ∀ arrival ∈ arrivals, arrival.Foreign fd) :
    InRecordRoom (db.executions fd
        ((prepare nodeId frontier peer file).2.items.zip arrivals)) ↔
      RoomsSelected peer.room (db.executions fd
        ((prepare nodeId frontier peer file).2.items.zip arrivals)) := by
  have linked := linked_of_session session
  rcases steers_prepare nodeId frontier file linked.connected with ⟨selects, _, quiet⟩
  generalize (prepare nodeId frontier peer file).2.items = items at *
  have quietPairs : ∀ pair ∈ items.zip arrivals, pair.1.Quiet := fun pair member =>
    quiet pair.1 (List.of_mem_zip member).1
  have foreignPairs : ∀ pair ∈ items.zip arrivals, pair.2.Foreign fd := fun pair member =>
    foreign pair.2 (List.of_mem_zip member).2
  have selectsPairs := selects_zip selects arrivals
  have start : db.clientRoom fd = peer.room ↔ peer.room ≠ [] := by
    constructor
    · intro same
      rw [← same]
      exact linked.named fd
    · intro known
      exact (linked.room.resolve_left known).symm
  constructor
  · intro right front execution back divided room args data runs
    rcases Option.isSome_iff_exists.mp runs with ⟨ran, equal⟩
    have member : execution ∈ db.executions fd (items.zip arrivals) := by
      rw [divided]
      exact List.mem_append_right _ List.mem_cons_self
    have selected := ranIn_eq equal
    rw [right execution member room args data ran equal, executions_fd member] at selected
    exact (selected_iff linked.sane quietPairs foreignPairs selectsPairs start divided data).mp
      selected.symm
  · intro selected execution member room args data ran equal
    rcases List.append_of_mem member with ⟨front, back, divided⟩
    rw [ranIn_eq equal, executions_fd member]
    exact (selected_iff linked.sane quietPairs foreignPairs selectsPairs start divided data).mpr
      (selected front execution back divided room args data (Option.isSome_of_eq_some equal))

/-- A peer whose other client keeps three rooms active. -/
def crowdedPeer : Db :=
  (fresh { nodeId := 2, peerCount := 1 } 1750000000000).run
    [.command { clientFd := 9, args := [ascii "GET", ascii "k"], now := 1750000001000 },
      .command { clientFd := 9, args := [ascii "ROOM", ascii "r"], now := 1750000002000 },
      .command { clientFd := 9, args := [ascii "ROOM", ascii "s"], now := 1750000003000 }]

/-- A log with one write, in a fourth room. -/
def strayFile : AofFile :=
  { inode := 1
    bytes := aofBytes
      [{ room := ascii "x", args := [ascii "SET", ascii "k", ascii "v"]
         timestampMs := 1750000000000 * 2 ^ 16, nodeId := 1 }] }

theorem session_crowded :
    Session 1 { nodeId := 2, peerCount := 1 } 5 { connected := true, room := [] } crowdedPeer :=
  .opened {} ⟨1750000000000, _, rfl⟩ (by decide +kernel)

theorem crowded_rooms_iff :
    InRecordRoom (crowdedPeer.executions 5
        ((prepare 1 0 { connected := true, room := [] } strayFile).2.items.zip
          [{ now := 1750000004000 }, { now := 1750000005000 }])) ↔
      RoomsSelected [] (crowdedPeer.executions 5
        ((prepare 1 0 { connected := true, room := [] } strayFile).2.items.zip
          [{ now := 1750000004000 }, { now := 1750000005000 }])) :=
  runs_in_record_room_iff 1 { nodeId := 2, peerCount := 1 } 5 { connected := true, room := [] }
    crowdedPeer session_crowded 0 strayFile [{ now := 1750000004000 }, { now := 1750000005000 }]
    (by simp [Arrival.Foreign])

/-- The peer refuses `ROOM x` and runs the merge that follows in the default
room. -/
theorem crowded_peer_strays :
    Session 1 { nodeId := 2, peerCount := 1 } 5 { connected := true, room := [] } crowdedPeer ∧
      ¬ InRecordRoom (crowdedPeer.executions 5
        ((prepare 1 0 { connected := true, room := [] } strayFile).2.items.zip
          [{ now := 1750000004000 }, { now := 1750000005000 }])) :=
  ⟨session_crowded, by decide +kernel⟩

end SomniumDB
