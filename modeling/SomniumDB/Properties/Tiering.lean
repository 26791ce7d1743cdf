import SomniumDB.Abstract.Alike
import SomniumDB.Abstract.Executed
import SomniumDB.Abstract.History

/-! # Cold storage is invisible

Two runs of the same commands at the same clock readings, one that evicts keys to cold
storage in whatever way its limits make it, the other without limits: they give the same
replies and write the same log, as long as no reading of the clock is behind that of an
earlier `COMPACT`. -/

namespace SomniumDB

open Bytes

/-- The configuration without a limit of memory. -/
def Config.withoutEviction (config : Config) : Config :=
  { config with maxMemory := 0 }

/-- The call, after which nothing is evicted. -/
def Call.withoutEviction (call : Call) : Call :=
  { call with victims := [] }

def Db.withoutEviction (db : Db) : Db :=
  { db with config := db.config.withoutEviction }

namespace Node

variable (config : Config) (now : Nat) (name : Bytes)

theorem plainDelLoop_withoutEviction (node : Node) (count : Nat) (keys : List Bytes) :
    node.plainDelLoop config.withoutEviction now name count keys =
      node.plainDelLoop config now name count keys := by
  induction keys generalizing node count with
  | nil => rfl
  | cons key rest induction =>
      unfold plainDelLoop
      dsimp only
      cases (node.touch now (name, key)).held (name, key) with
      | none => exact induction _ _
      | some record => exact induction _ _

/-- The limits play no part in what a command means. -/
theorem plain_withoutEviction (node : Node) (resp3 : Bool) (args : List Bytes)
    (kind : RoomCommand) :
    node.plain config.withoutEviction now resp3 name args kind =
      node.plain config now resp3 name args kind := by
  cases kind with
  | del =>
      match args with
      | _ :: key :: rest =>
          change ((node.plainDelLoop config.withoutEviction now name 0 (key :: rest)).1,
              integer (node.plainDelLoop config.withoutEviction now name 0 (key :: rest)).2) = _
          rw [plainDelLoop_withoutEviction]
          rfl
      | [] => rfl
      | [_] => rfl
  | _ => rfl

end Node

namespace Db

/-! ## The rooms of a node -/

/-- What waking and choosing rooms depend on. -/
@[ext] structure Shape where
  clientRooms : FiniteMap Nat Bytes
  activeRooms : Nat
  registered : Bytes → Prop
  state : Bytes → RoomState

def shape (db : Db) : Shape where
  clientRooms := db.clientRooms
  activeRooms := db.activeRooms
  registered name := name ∈ db.rooms
  state name := (db.room name).state

/-- A room is registered and awake. -/
def Shape.woken (shape : Shape) (name : Bytes) : Shape :=
  { shape with
    activeRooms := if shape.state name = .active then shape.activeRooms else shape.activeRooms + 1
    registered := fun other => other = name ∨ shape.registered other
    state := fun other => if other = name then .active else shape.state other }

/-- A command has left a node of the given shape and content. -/
structure Ran (db after : Db) (shape : Shape) (node : Node) : Prop where
  wellFormed : after.WellFormed
  config : after.config = db.config
  rewriteChild : after.rewriteChild = db.rewriteChild
  shape : after.shape = shape
  node : after.node = node

variable {db : Db} {name : Bytes}

theorem Ran.refl (wellFormed : db.WellFormed) : Ran db db db.shape db.node :=
  ⟨wellFormed, rfl, rfl, rfl, rfl⟩

theorem Ran.trans {second third : Db} {middle last : Shape} {node node' : Node}
    (left : Ran db second middle node) (right : Ran second third last node') :
    Ran db third last node' :=
  ⟨right.wellFormed, right.config.trans left.config, right.rewriteChild.trans left.rewriteChild,
    right.shape, right.node⟩

theorem Frame.shape {after : Db} (frame : Frame db after) : after.shape = db.shape := by
  apply Shape.ext
  · exact frame.clientRooms
  · exact frame.activeRooms
  · funext name
    exact propext (frame.registered name)
  · funext name
    exact frame.state name

theorem Acts.ran {after : Db} {node : Node} (acts : Acts db after node) :
    Ran db after db.shape node :=
  ⟨acts.wellFormed, acts.frame.config, acts.frame.rewriteChild, acts.frame.shape, acts.node⟩

/-- Nodes of one shape have registered equally many rooms. -/
theorem length_rooms_of_shape {other : Db} (same : other.shape = db.shape) :
    other.rooms.toPairs.length = db.rooms.toPairs.length := by
  apply FiniteMap.length_toPairs_of_keys
  intro name
  exact iff_of_eq (congrFun (congrArg Shape.registered same) name)

theorem shape_findRoom (db : Db) (name : Bytes) :
    (db.findRoom name).shape =
      { db.shape with registered := fun other => other = name ∨ other ∈ db.rooms } := by
  apply Shape.ext
  · unfold findRoom
    by_cases known : name ∈ db.rooms
    · rw [if_pos known]
    · rw [if_neg known]
      rfl
  · unfold findRoom
    by_cases known : name ∈ db.rooms
    · rw [if_pos known]
    · rw [if_neg known]
      rfl
  · funext other
    apply propext
    change other ∈ (db.findRoom name).rooms ↔ _
    unfold findRoom
    by_cases present : name ∈ db.rooms
    · rw [if_pos present]
      constructor
      · exact .inr
      · rintro (rfl | member)
        · exact present
        · exact member
    · rw [if_neg present]
      exact AList.mem_insert _
  · funext other
    exact congrArg Room.state (db.room_findRoom name other)

theorem shape_of_insert {after : Db} {room : Room}
    (rooms : after.rooms = db.rooms.insert name room) (active : room.state = .active)
    (clientRooms : after.clientRooms = db.clientRooms)
    (activeRooms : after.activeRooms = (db.shape.woken name).activeRooms) :
    after.shape = db.shape.woken name := by
  refine Shape.ext clientRooms activeRooms ?_ ?_
  · funext other
    apply propext
    change other ∈ after.rooms ↔ _
    rw [rooms]
    exact AList.mem_insert _
  · funext other
    change (after.room other).state = if other = name then .active else (db.room other).state
    simp only [Db.room, rooms, FiniteMap.lookup_insert_if]
    by_cases same : other = name
    · simp only [if_pos same]
      exact active
    · simp only [if_neg same]

theorem shape_activate {now : Nat} (activated : (db.activate now name false).2 = true) :
    (db.activate now name false).1.shape = db.shape.woken name := by
  unfold activate at activated ⊢
  dsimp only at activated ⊢
  by_cases active : (db.room name).state = .active
  · rw [if_pos active]
    exact shape_of_insert rfl active rfl (if_pos active).symm
  · rw [if_neg active] at activated ⊢
    by_cases full : maxActiveRooms ≤ db.activeRooms ∧ (!false) = true
    · rw [if_pos full] at activated
      cases activated
    · rw [if_neg full] at activated
      rw [if_neg full]
      split at activated
      · cases activated
      · rename_i fitting
        rw [if_neg fitting]
        exact shape_of_insert rfl rfl rfl (if_neg active).symm

/-- A room that opens is awake, and nothing else about the node has changed. -/
theorem ran_open (wellFormed : db.WellFormed) (now : Nat) (opens : db.Opens name) :
    Ran db ((db.findRoom name).activate now name false).1 (db.shape.woken name) db.node := by
  rcases open_spec wellFormed now name with ⟨kept, rearranged, _⟩
  have found := shape_findRoom db name
  have shape := shape_activate ((opens_iff db now name).mpr opens)
  refine ⟨kept.wellFormed, kept.config, kept.rewriteChild, ?_, rearranged.node⟩
  rw [shape, found]
  apply Shape.ext
  · rfl
  · rfl
  · funext other
    apply propext
    change (other = name ∨ other = name ∨ other ∈ db.rooms) ↔ (other = name ∨ other ∈ db.rooms)
    rw [← or_assoc, or_self]
  · rfl

theorem ran_setClientRoom (wellFormed : db.WellFormed) (clientFd : Nat) (name : Bytes) :
    Ran db (db.setClientRoom clientFd name)
      { db.shape with clientRooms := db.clientRooms.insert clientFd name } db.node :=
  ⟨⟨wellFormed.exclusive, wellFormed.asleep⟩, rfl, rfl, rfl, rfl⟩

/-- A command in a room does what it means on the plain store, if the room opens. -/
theorem executeInRoom_ran (wellFormed : db.WellFormed) (call : Call) (name : Bytes)
    {first : Bytes} (head : call.args.head? = some first) {kind : RoomCommand}
    (named : Command.named (upper first) = .inRoom kind) :
    (¬db.Opens name ∧ (db.executeInRoom call name kind).2 = roomsFull) ∨
      (db.Opens name ∧
        Ran db (db.executeInRoom call name kind).1 (db.shape.woken name)
          (db.node.plain db.config call.now call.resp3 name call.args kind).1 ∧
        (db.executeInRoom call name kind).2 =
          (db.node.plain db.config call.now call.resp3 name call.args kind).2) := by
  have opens := opens_iff db call.now name
  rcases open_spec wellFormed call.now name with ⟨_, _, woken⟩
  unfold executeInRoom executeInRoomWith
  dsimp only
  rcases equal : (db.findRoom name).activate call.now name false with ⟨refused, _ | _⟩
  · rw [equal] at opens
    exact .inl ⟨fun free => Bool.false_ne_true (opens.mpr free), rfl⟩
  · rw [equal] at opens woken
    have ran := ran_open wellFormed call.now (opens.mp rfl)
    rw [equal] at ran
    have means := means_runInRoom ran.wellFormed (woken rfl) call.now call.resp3 head named
    rw [ran.node, ran.config] at means
    have evicted := acts_evictDespisedKeys means.acts.wellFormed
      (means.acts.frame.awake (woken rfl)) call.victims
    have handled := (means.acts.trans evicted).ran
    rw [ran.shape, means.acts.node] at handled
    exact .inr ⟨opens.mp rfl, ran.trans handled, means.reply⟩

/-- `COMPACT` drops expired records only. -/
theorem alike_compact (db : Db) (now : Nat) :
    Node.Alike now (db.compact now).1.node db.node := by
  refine ⟨fun place => ?_, rfl, rfl, rfl, rfl, rfl⟩
  have cold : (db.compact now).1.cold.find place.1 place.2 =
      unexpired now (db.cold.find place.1 place.2) :=
    NestedMap.find_filter _ db.cold place.1 place.2
  change unexpired now (((db.resident place.1).lookup place.2).or
    ((db.compact now).1.cold.find place.1 place.2)) = unexpired now (db.held place)
  rw [cold]
  unfold held
  cases (db.resident place.1).lookup place.2 with
  | some record => rfl
  | none => exact unexpired_later le_rfl _

theorem ran_compact (wellFormed : db.WellFormed) (now : Nat) :
    Ran db (db.compact now).1 db.shape (db.compact now).1.node :=
  ⟨(kept_compact wellFormed now).wellFormed, rfl, rfl, rfl, rfl⟩

/-! ## The two runs -/

/-- No background rewrite is waiting to be committed. -/
def Uncommitted (db : Db) : Prop :=
  ∀ child, db.rewriteChild = some child → child.finished = false

/-- The node that evicts and the one that does not. -/
structure Tiers (floor : Nat) (left right : Db) : Prop where
  leftForm : left.WellFormed
  rightForm : right.WellFormed
  config : right.config = left.config.withoutEviction
  shape : right.shape = left.shape
  alike : Node.Alike floor left.node right.node
  idle : right.rewriteChild.isNone = left.rewriteChild.isNone
  leftUncommitted : left.Uncommitted
  rightUncommitted : right.Uncommitted

section Tiers

variable {floor now : Nat} {left right : Db}

theorem Tiers.ran {leftAfter rightAfter : Db} {shape : Shape} {later : Nat} {node node' : Node}
    (tiers : Tiers floor left right) (leftRan : Ran left leftAfter shape node)
    (rightRan : Ran right rightAfter shape node') (alike : Node.Alike later node node') :
    Tiers later leftAfter rightAfter where
  leftForm := leftRan.wellFormed
  rightForm := rightRan.wellFormed
  config := by rw [rightRan.config, leftRan.config, tiers.config]
  shape := by rw [rightRan.shape, leftRan.shape]
  alike := by
    rw [leftRan.node, rightRan.node]
    exact alike
  idle := by rw [rightRan.rewriteChild, leftRan.rewriteChild, tiers.idle]
  leftUncommitted child running := tiers.leftUncommitted child (leftRan.rewriteChild ▸ running)
  rightUncommitted child running := tiers.rightUncommitted child (rightRan.rewriteChild ▸ running)

theorem Tiers.later (tiers : Tiers floor left right) {later : Nat} (le : floor ≤ later) :
    Tiers later left right :=
  { tiers with alike := tiers.alike.later le }

/-- Without a limit of memory a room opens whenever it does with one. -/
theorem Tiers.opens (tiers : Tiers floor left right) {name : Bytes} (opens : left.Opens name) :
    right.Opens name := by
  have state : (right.room name).state = (left.room name).state :=
    congrFun (congrArg Shape.state tiers.shape) name
  have activeRooms : right.activeRooms = left.activeRooms := congrArg Shape.activeRooms tiers.shape
  have unlimited : right.config.maxMemory = 0 := by
    rw [tiers.config]
    rfl
  rcases opens with active | ⟨few, _⟩
  · exact .inl (state.trans active)
  · refine .inr ⟨activeRooms ▸ few, ?_⟩
    simp only [fits, unlimited, true_or, decide_true]

theorem Tiers.clientRoom (tiers : Tiers floor left right) (clientFd : Nat) :
    right.clientRoom clientFd = left.clientRoom clientFd := by
  have clientRooms : right.clientRooms = left.clientRooms := congrArg Shape.clientRooms tiers.shape
  unfold Db.clientRoom
  rw [clientRooms]

theorem Tiers.setClientRoom (tiers : Tiers floor left right) (clientFd : Nat) (name : Bytes) :
    Tiers floor (left.setClientRoom clientFd name) (right.setClientRoom clientFd name) := by
  have clientRooms : right.clientRooms = left.clientRooms := congrArg Shape.clientRooms tiers.shape
  have rightRan := ran_setClientRoom tiers.rightForm clientFd name
  rw [tiers.shape, clientRooms] at rightRan
  exact tiers.ran (ran_setClientRoom tiers.leftForm clientFd name) rightRan tiers.alike

theorem Tiers.executeInRoom (tiers : Tiers floor left right) {call : Call}
    (later : floor ≤ call.now) (name : Bytes) {first : Bytes}
    (head : call.args.head? = some first) {kind : RoomCommand}
    (named : Command.named (upper first) = .inRoom kind)
    (activated : (left.executeInRoom call name kind).2 ≠ roomsFull) :
    Tiers floor (left.executeInRoom call name kind).1
        (right.executeInRoom call.withoutEviction name kind).1 ∧
      (left.executeInRoom call name kind).2 =
        (right.executeInRoom call.withoutEviction name kind).2 := by
  rcases executeInRoom_ran tiers.leftForm call name head named with
    ⟨_, full⟩ | ⟨opens, leftRan, leftReply⟩
  · exact absurd full activated
  · rcases executeInRoom_ran tiers.rightForm call.withoutEviction name head named with
      ⟨closed, _⟩ | ⟨_, rightRan, rightReply⟩
    · exact absurd (tiers.opens opens) closed
    · have same := tiers.alike.plain left.config later call.resp3 name head named
      rw [tiers.shape, tiers.config, Node.plain_withoutEviction] at rightRan
      rw [tiers.config, Node.plain_withoutEviction] at rightReply
      refine ⟨tiers.ran leftRan rightRan same.alike, ?_⟩
      rw [leftReply, rightReply]
      exact same.reply

theorem Tiers.wakeRoom (tiers : Tiers floor left right) (now : Nat) (name : Bytes)
    (activated : (left.wakeRoom now name).2 ≠ some roomsFull) :
    Tiers floor (left.wakeRoom now name).1 (right.wakeRoom now name).1 ∧
      (left.wakeRoom now name).2 = (right.wakeRoom now name).2 := by
  have registered : name ∈ right.rooms ↔ name ∈ left.rooms :=
    iff_of_eq (congrFun (congrArg Shape.registered tiers.shape) name)
  have count := length_rooms_of_shape tiers.shape
  have maxRooms : right.config.maxRooms = left.config.maxRooms := by
    rw [tiers.config]
    rfl
  have crowded : (name ∉ right.rooms ∧ right.config.maxRooms ≤ right.rooms.toPairs.length) ↔
      (name ∉ left.rooms ∧ left.config.maxRooms ≤ left.rooms.toPairs.length) := by
    rw [registered, count, maxRooms]
  unfold Db.wakeRoom at activated ⊢
  split
  · exact ⟨tiers, rfl⟩
  · rename_i valid
    rw [if_neg valid] at activated
    by_cases full : name ∉ left.rooms ∧ left.config.maxRooms ≤ left.rooms.toPairs.length
    · rw [if_pos full, if_pos (crowded.mpr full)]
      exact ⟨tiers, rfl⟩
    · rw [if_neg full] at activated
      rw [if_neg full, if_neg (mt crowded.mp full)]
      have opened : ((left.findRoom name).activate now name false).2 = true := by
        cases awake : ((left.findRoom name).activate now name false).2 with
        | true => rfl
        | false => exact absurd (by simp [awake]) activated
      have leftOpens := (opens_iff left now name).mp opened
      have rightOpened := (opens_iff right now name).mpr (tiers.opens leftOpens)
      have rightRan := ran_open tiers.rightForm now (tiers.opens leftOpens)
      rw [tiers.shape] at rightRan
      refine ⟨tiers.ran (ran_open tiers.leftForm now leftOpens) rightRan tiers.alike, ?_⟩
      dsimp only
      rw [opened, rightOpened]

theorem Tiers.handleRoom (tiers : Tiers floor left right) (now clientFd : Nat)
    (args : List Bytes) (activated : (left.handleRoom now clientFd args).2 ≠ roomsFull) :
    Tiers floor (left.handleRoom now clientFd args).1 (right.handleRoom now clientFd args).1 ∧
      (left.handleRoom now clientFd args).2 = (right.handleRoom now clientFd args).2 := by
  match args with
  | [_, name] =>
      have woken := tiers.wakeRoom now name
      unfold Db.handleRoom at activated ⊢
      dsimp only at activated ⊢
      rcases leftEq : left.wakeRoom now name with ⟨leftWoken, leftErr⟩
      rcases rightEq : right.wakeRoom now name with ⟨rightWoken, rightErr⟩
      rw [leftEq] at activated
      rw [leftEq, rightEq] at woken
      cases leftErr with
      | none =>
          rcases woken (by simp) with ⟨after, same⟩
          obtain rfl : none = rightErr := same
          exact ⟨after.setClientRoom clientFd name, rfl⟩
      | some err =>
          rcases woken (fun full => activated (Option.some.inj full)) with ⟨after, same⟩
          obtain rfl : some err = rightErr := same
          exact ⟨after, rfl⟩
  | [] => exact ⟨tiers, rfl⟩
  | [_] => exact ⟨tiers, rfl⟩
  | _ :: _ :: _ :: _ => exact ⟨tiers, rfl⟩

theorem Tiers.compact (tiers : Tiers floor left right) {now : Nat} (later : floor ≤ now) :
    Tiers now (left.compact now).1 (right.compact now).1 := by
  have rightRan := ran_compact tiers.rightForm now
  rw [tiers.shape] at rightRan
  refine tiers.ran (ran_compact tiers.leftForm now) rightRan ?_
  exact ((alike_compact left now).trans (tiers.alike.later later)).trans
    (alike_compact right now).symm

theorem finishBackgroundRewrite_uncommitted (uncommitted : db.Uncommitted) :
    db.finishBackgroundRewrite = db := by
  rcases finishBackgroundRewrite_cases db with same | ⟨child, running, finished, _⟩
  · exact same
  · rw [uncommitted child running] at finished
    cases finished

theorem Tiers.startBackgroundRewrite (tiers : Tiers floor left right)
    (leftIdle : left.rewriteChild = none) (rightIdle : right.rewriteChild = none) :
    Tiers floor left.startBackgroundRewrite.1 right.startBackgroundRewrite.1 := by
  have leftFork := forked_startBackgroundRewrite tiers.leftForm leftIdle
  have rightFork := forked_startBackgroundRewrite tiers.rightForm rightIdle
  have shape : ∀ db : Db, db.startBackgroundRewrite.1.shape = db.shape := by
    intro db
    unfold Db.startBackgroundRewrite
    cases db.rewriteChild with
    | none => rfl
    | some _ => rfl
  refine ⟨leftFork.wellFormed, rightFork.wellFormed, ?_, ?_, ?_, ?_, ?_, ?_⟩
  · rw [rightFork.config, leftFork.config, tiers.config]
  · rw [shape, shape, tiers.shape]
  · rw [leftFork.node, rightFork.node]
    exact tiers.alike
  · rw [leftFork.rewriteChild, rightFork.rewriteChild]
    rfl
  · intro child running
    rw [leftFork.rewriteChild] at running
    cases running
    rfl
  · intro child running
    rw [rightFork.rewriteChild] at running
    cases running
    rfl

theorem Tiers.beginCommand (tiers : Tiers floor left right) (call : Call) :
    Tiers floor (left.beginCommand call) (right.beginCommand call) := by
  unfold Db.beginCommand
  rw [finishBackgroundRewrite_uncommitted tiers.leftUncommitted,
    finishBackgroundRewrite_uncommitted tiers.rightUncommitted]
  dsimp only
  rw [tiers.idle]
  by_cases due : (left.rewriteChild.isNone && call.rewriteDue) = true
  · simp only [if_pos due]
    have leftIdle := Option.isNone_iff_eq_none.mp (Bool.and_eq_true_iff.mp due).1
    have rightIdle : right.rewriteChild = none := by
      rw [← Option.isNone_iff_eq_none, tiers.idle, leftIdle]
      rfl
    exact tiers.startBackgroundRewrite leftIdle rightIdle
  · simp only [if_neg due]
    exact tiers

end Tiers

end Db

/-- The command that a call names. -/
def Call.command (call : Call) : Option Command :=
  call.args.head?.map fun first => .named (upper first)

def Call.compacts (call : Call) : Bool :=
  decide (call.command = some (.connection .compact))

/-- A command on keys, the choice of a room, or `COMPACT`. -/
def Call.OnKeys (call : Call) : Prop :=
  (∃ kind, call.command = some (.inRoom kind)) ∨ call.command = some (.connection .room) ∨
    call.command = some (.connection .compact)

namespace Db

variable {config : Config} {db left right : Db} {floor : Nat}

/-- The command itself, in both runs. -/
theorem Tiers.dispatch (tiers : Tiers floor left right) {call : Call} (later : floor ≤ call.now)
    {first : Bytes} (head : call.args.head? = some first)
    (onKeys : (∃ kind, Command.named (upper first) = .inRoom kind) ∨
      Command.named (upper first) = .connection .room)
    (activated : (left.dispatch call (upper first)).2 ≠ roomsFull) :
    Tiers floor (left.dispatch call (upper first)).1
        (right.dispatch call.withoutEviction (upper first)).1 ∧
      (left.dispatch call (upper first)).2 =
        (right.dispatch call.withoutEviction (upper first)).2 := by
  have known := tiers.setClientRoom call.clientFd (left.clientRoom call.clientFd)
  have sameRoom : right.clientRoom call.withoutEviction.clientFd = left.clientRoom call.clientFd :=
    tiers.clientRoom call.clientFd
  have sameMode : call.withoutEviction.subscribed = call.subscribed := rfl
  unfold Db.dispatch at activated ⊢
  rcases onKeys with ⟨kind, named⟩ | named
  · simp only [named, sameRoom, sameMode] at activated ⊢
    cases listening : call.subscribed with
    | true => exact ⟨known, rfl⟩
    | false =>
        rw [listening] at activated
        exact known.executeInRoom later _ head named activated
  · simp only [named, sameRoom, sameMode] at activated ⊢
    cases listening : call.subscribed with
    | true => exact ⟨known, rfl⟩
    | false =>
        rw [listening] at activated
        exact known.handleRoom call.now call.clientFd call.args activated

theorem Tiers.dispatch_compact (tiers : Tiers floor left right) {call : Call}
    (later : floor ≤ call.now) {name : Bytes} (named : Command.named name = .connection .compact) :
    Tiers call.now (left.dispatch call name).1 (right.dispatch call.withoutEviction name).1 := by
  have known := tiers.setClientRoom call.clientFd (left.clientRoom call.clientFd)
  have sameRoom : right.clientRoom call.withoutEviction.clientFd = left.clientRoom call.clientFd :=
    tiers.clientRoom call.clientFd
  have sameMode : call.withoutEviction.subscribed = call.subscribed := rfl
  unfold Db.dispatch
  simp only [named, sameRoom, sameMode]
  cases call.subscribed with
  | true => exact known.later later
  | false => exact known.compact later

/-- One command in both runs. -/
theorem Tiers.execute (tiers : Tiers floor left right) {call : Call} (onKeys : call.OnKeys)
    (later : floor ≤ call.now) (activated : (left.execute call).2 ≠ roomsFull) :
    Tiers (if call.compacts then call.now else floor) (left.execute call).1
        (right.execute call.withoutEviction).1 ∧
      (call.compacts = false →
        (left.execute call).2 = (right.execute call.withoutEviction).2) := by
  obtain ⟨first, rest, args⟩ : ∃ first rest, call.args = first :: rest := by
    cases args : call.args with
    | nil => simp [Call.OnKeys, Call.command, args] at onKeys
    | cons first rest => exact ⟨first, rest, rfl⟩
  have head : call.args.head? = some first := by
    rw [args]
    rfl
  have command : call.command = some (.named (upper first)) := by
    rw [Call.command, head]
    rfl
  have leftRun : left.execute call = (left.beginCommand call).dispatch call (upper first) := by
    unfold Db.execute
    rw [args]
  have rightRun : right.execute call.withoutEviction =
      (right.beginCommand call).dispatch call.withoutEviction (upper first) := by
    unfold Db.execute
    rw [show call.withoutEviction.args = first :: rest from args]
    rfl
  have begun := tiers.beginCommand call
  rw [leftRun] at activated ⊢
  rw [rightRun]
  rw [Call.OnKeys, command] at onKeys
  simp only [Option.some.injEq] at onKeys
  by_cases compacts : Command.named (upper first) = .connection .compact
  · have flag : call.compacts = true := by
      simp [Call.compacts, command, compacts]
    rw [flag, if_pos rfl]
    exact ⟨begun.dispatch_compact later compacts, by simp⟩
  · have flag : call.compacts = false := by
      simp [Call.compacts, command, compacts]
    rw [flag]
    have ordinary : (∃ kind, Command.named (upper first) = .inRoom kind) ∨
        Command.named (upper first) = .connection .room := by
      rcases onKeys with inRoom | room | compact
      · exact .inl inRoom
      · exact .inr room
      · exact absurd compact compacts
    rcases begun.dispatch later head ordinary activated with ⟨after, reply⟩
    exact ⟨after, fun _ => reply⟩

/-- The replies of a run, but for those to `COMPACT`. -/
def told (calls : List Call) (replies : List Bytes) : List Bytes :=
  ((calls.zip replies).filter fun answered => !answered.1.compacts).map Prod.snd

theorem Tiers.serve (tiers : Tiers floor left right) (calls : List Call)
    (onKeys : ∀ call ∈ calls, call.OnKeys) (later : ∀ call ∈ calls, floor ≤ call.now)
    (steady : calls.Pairwise fun earlier later => earlier.compacts = true →
      earlier.now ≤ later.now)
    (activated : roomsFull ∉ (left.serve calls).2) :
    told calls (left.serve calls).2 =
        told calls (right.serve (calls.map Call.withoutEviction)).2 ∧
      ∃ reached, Tiers reached (left.serve calls).1
        (right.serve (calls.map Call.withoutEviction)).1 := by
  induction calls generalizing floor left right with
  | nil => exact ⟨rfl, floor, tiers⟩
  | cons call rest induction =>
      rcases List.pairwise_cons.mp steady with ⟨steadyHere, steadyRest⟩
      have first : (left.execute call).2 ≠ roomsFull :=
        fun full => activated (full ▸ List.mem_cons_self)
      rcases tiers.execute (onKeys call List.mem_cons_self)
        (later call List.mem_cons_self) first with ⟨after, reply⟩
      have laterRest : ∀ other ∈ rest,
          (if call.compacts then call.now else floor) ≤ other.now := by
        intro other member
        by_cases compacts : call.compacts = true
        · rw [if_pos compacts]
          exact steadyHere other member compacts
        · rw [if_neg compacts]
          exact later other (List.mem_cons_of_mem _ member)
      rcases induction after
        (fun other member => onKeys other (List.mem_cons_of_mem _ member)) laterRest steadyRest
        (fun full => activated (List.mem_cons_of_mem _ full)) with ⟨same, reached⟩
      refine ⟨?_, reached⟩
      unfold told at same ⊢
      simp only [Db.serve, List.map_cons, List.zip_cons_cons]
      cases compacts : call.compacts with
      | true => simpa [compacts] using same
      | false => simpa [compacts, reply compacts] using same

/-! ## From any state -/

theorem uncommitted_finishBackgroundRewrite (db : Db) : db.finishBackgroundRewrite.Uncommitted := by
  intro child running
  rcases finishBackgroundRewrite_cases db with same | ⟨_, _, _, ⟨_, dropped⟩ | ⟨_, committed⟩⟩
  · rw [same] at running
    unfold finishBackgroundRewrite at same
    rw [running] at same
    cases finished : child.finished with
    | false => rfl
    | true =>
        have gone : db.rewriteChild = none := by
          rw [← same]
          cases failed : child.failed <;> simp [finished, failed]
        cases gone.symm.trans running
  · rw [dropped] at running
    cases running
  · rw [committed] at running
    cases running

/-- The first command commits a rewrite that has ended, and nothing is lost by doing so
before. -/
theorem execute_finishBackgroundRewrite (call : Call) (given : call.args ≠ []) :
    db.finishBackgroundRewrite.execute call = db.execute call := by
  have again := finishBackgroundRewrite_uncommitted (uncommitted_finishBackgroundRewrite db)
  have begun : db.finishBackgroundRewrite.beginCommand call = db.beginCommand call := by
    unfold beginCommand
    rw [again]
  unfold execute
  cases args : call.args with
  | nil => exact absurd args given
  | cons first rest =>
      dsimp only
      rw [begun]

theorem finishBackgroundRewrite_withoutEviction (db : Db) :
    db.withoutEviction.finishBackgroundRewrite = db.finishBackgroundRewrite.withoutEviction := by
  have running : db.withoutEviction.rewriteChild = db.rewriteChild := rfl
  unfold finishBackgroundRewrite
  rw [running]
  cases db.rewriteChild with
  | none => rfl
  | some child =>
      dsimp only
      by_cases unfinished : (!child.finished) = true
      · simp only [if_pos unfinished]
      · simp only [if_neg unfinished]
        by_cases same : child.failed = true
        · simp only [if_pos same]
          rfl
        · simp only [if_neg same]
          rfl

theorem tiers_finishBackgroundRewrite (sane : Sane config db) :
    Tiers 0 db.finishBackgroundRewrite db.withoutEviction.finishBackgroundRewrite := by
  have uncommitted := uncommitted_finishBackgroundRewrite db
  have form : db.finishBackgroundRewrite.WellFormed := (sane.finished).wellFormed
  rw [finishBackgroundRewrite_withoutEviction]
  exact
    { leftForm := form
      rightForm := ⟨form.exclusive, form.asleep⟩
      config := rfl
      shape := rfl
      alike := .refl _
      idle := rfl
      leftUncommitted := uncommitted
      rightUncommitted := uncommitted }

/-- Cold storage cannot be seen: whatever is evicted, the replies and the log are those
of the run without eviction. -/
theorem tiering_invisible (reachable : Reachable config db) (calls : List Call)
    (onKeys : ∀ call ∈ calls, call.OnKeys) (activated : roomsFull ∉ (db.serve calls).2)
    (steady : calls.Pairwise fun earlier later => earlier.compacts = true →
      earlier.now ≤ later.now) :
    let plain := db.withoutEviction.serve (calls.map Call.withoutEviction)
    told calls (db.serve calls).2 = told calls plain.2 ∧ (db.serve calls).1.aof = plain.1.aof := by
  cases calls with
  | nil => exact ⟨rfl, rfl⟩
  | cons call rest =>
      have given : call.args ≠ [] := by
        intro empty
        have command := onKeys call List.mem_cons_self
        simp [Call.OnKeys, Call.command, empty] at command
      have leftStart : db.finishBackgroundRewrite.serve (call :: rest) = db.serve (call :: rest) := by
        unfold serve
        rw [execute_finishBackgroundRewrite call given]
      have rightStart : db.withoutEviction.finishBackgroundRewrite.serve
            ((call :: rest).map Call.withoutEviction) =
          db.withoutEviction.serve ((call :: rest).map Call.withoutEviction) := by
        rw [List.map_cons]
        unfold serve
        rw [execute_finishBackgroundRewrite call.withoutEviction given]
      have tiers := tiers_finishBackgroundRewrite (sane_of_reachable reachable)
      rw [← leftStart] at activated
      rcases tiers.serve (call :: rest) onKeys (fun _ _ => Nat.zero_le _) steady activated with
        ⟨same, _, reached⟩
      rw [leftStart, rightStart] at same reached
      exact ⟨same, reached.alike.log⟩

/-- A node that keeps no key in memory. -/
def crammed : Db :=
  fresh { maxKeys := 0 } 1000

theorem reachable_crammed : Reachable { maxKeys := 0 } crammed :=
  ⟨1000, [], rfl⟩

/-- A key with a deadline is evicted, the cold file is compacted, and the key is read at
the last of the three clock readings. -/
def evictCompactRead (compactAt readAt : Nat) : List Call :=
  [{ clientFd := 5, args := [ascii "SET", ascii "a", ascii "v", ascii "PX", ascii "10"], now := 1000
     victims := [ascii "a"] },
    { clientFd := 5, args := [ascii "COMPACT"], now := compactAt },
    { clientFd := 5, args := [ascii "GET", ascii "a"], now := readAt }]

theorem onKeys_evictCompactRead (compactAt readAt : Nat) :
    ∀ call ∈ evictCompactRead compactAt readAt, call.OnKeys := by
  have named : Command.named (upper (ascii "SET")) = .inRoom .set ∧
      Command.named (upper (ascii "COMPACT")) = .connection .compact ∧
      Command.named (upper (ascii "GET")) = .inRoom .get := by decide
  intro call member
  simp only [evictCompactRead, List.mem_cons, List.not_mem_nil, or_false] at member
  rcases member with rfl | rfl | rfl
  · exact .inl ⟨.set, congrArg some named.1⟩
  · exact .inr (.inr (congrArg some named.2.1))
  · exact .inl ⟨.get, congrArg some named.2.2⟩

/-- A clock that goes back behind a deadline after a `COMPACT` shows what was evicted. -/
theorem clock_behind_compact_shows :
    Reachable { maxKeys := 0 } crammed ∧ (∀ call ∈ evictCompactRead 2000 1005, call.OnKeys) ∧
      roomsFull ∉ (crammed.serve (evictCompactRead 2000 1005)).2 ∧
      told (evictCompactRead 2000 1005) (crammed.serve (evictCompactRead 2000 1005)).2 ≠
        told (evictCompactRead 2000 1005)
          (crammed.withoutEviction.serve
            ((evictCompactRead 2000 1005).map Call.withoutEviction)).2 :=
  ⟨reachable_crammed, onKeys_evictCompactRead 2000 1005, by decide +kernel, by decide +kernel⟩

theorem tiering_invisible_evicted :
    (crammed.serve (evictCompactRead 1002 1005)).1.aof =
      (crammed.withoutEviction.serve
        ((evictCompactRead 1002 1005).map Call.withoutEviction)).1.aof :=
  (tiering_invisible reachable_crammed (evictCompactRead 1002 1005)
    (onKeys_evictCompactRead 1002 1005) (by decide +kernel) (by decide +kernel)).2

end Db

end SomniumDB
