import SomniumDB.Core.CorruptFiles
import SomniumDB.Abstract.Events

/-! # Rewriting the log when the snapshot of a sleeping room is corrupt

The first attempt to rewrite finds the corrupt file and fails, which leaves the
log as the only copy of the room. But loading the file renames it aside, so that
the next attempt finds no snapshot and drops the room from the log. -/

namespace SomniumDB

open Bytes SnapshotManager

namespace Disk

variable {config : Config} {disk : Disk} {name : Bytes}

/-- Some key of the room is restored from the log as it stands, and not from the
one that the event puts in its place. -/
def DropsKeys (disk : Disk) (event : DiskEvent) (name : Bytes) : Prop :=
  ∃ log key now, disk.installed event = some log ∧
    disk.restores disk.db.aof now name key = true ∧ disk.restores log now name key = false

/-- The corrupt file of the room is where a dump looks for it. -/
def InPlace (disk : Disk) (calls : CorruptCalls) (name : Bytes) : Prop :=
  disk.stopsAt calls name = true

/-- The dump of a rewrite comes to the room, if it does so in this event, while
its corrupt file is in place. -/
def MeetsFile (disk : Disk) (name : Bytes) : DiskEvent → Prop
  | .node (.childStep _) calls =>
      disk.db.rewriteChild.bind RewriteChild.next = some name → disk.InPlace calls name
  | .node (.restart _) _ => False
  | .node _ _ => True
  | .rewriteAof _ calls _ => disk.InPlace calls name

/-- The room stays asleep, and every dump that comes to it finds its corrupt
file in place. The node is not restarted. -/
def FileInPlace (name : Bytes) : Disk → List DiskEvent → Prop
  | disk, [] => (disk.db.room name).state = .sleeping
  | disk, event :: rest =>
      (disk.db.room name).state = .sleeping ∧ disk.MeetsFile name event ∧
        FileInPlace name (disk.step event) rest

instance decidableMeetsFile (disk : Disk) (name : Bytes) (event : DiskEvent) :
    Decidable (disk.MeetsFile name event) :=
  match event with
  | .node (.childStep _) calls =>
      inferInstanceAs (Decidable (disk.db.rewriteChild.bind RewriteChild.next = some name →
        disk.stopsAt calls name = true))
  | .node (.restart _) _ => inferInstanceAs (Decidable False)
  | .node (.command _) _ => inferInstanceAs (Decidable True)
  | .node (.cleanup _ _) _ => inferInstanceAs (Decidable True)
  | .node (.cleanExpired _ _) _ => inferInstanceAs (Decidable True)
  | .node (.hibernateInactive _ _) _ => inferInstanceAs (Decidable True)
  | .node (.childFail _) _ => inferInstanceAs (Decidable True)
  | .rewriteAof _ calls _ => inferInstanceAs (Decidable (disk.stopsAt calls name = true))

instance decidableFileInPlace (name : Bytes) :
    (disk : Disk) → (events : List DiskEvent) → Decidable (FileInPlace name disk events)
  | disk, [] => inferInstanceAs (Decidable ((disk.db.room name).state = .sleeping))
  | disk, event :: rest =>
      have := decidableFileInPlace name (disk.step event) rest
      inferInstanceAs (Decidable ((disk.db.room name).state = .sleeping ∧
        disk.MeetsFile name event ∧ FileInPlace name (disk.step event) rest))

/-- A rewrite in progress has failed, or has still to come to the room. -/
def Pending (name : Bytes) (child : RewriteChild) : Prop :=
  (child.finished = true → child.failed = true) ∧
    (child.finished = false →
      (∃ room, (name, room) ∈ child.todo) ∧
        ∀ room, (name, room) ∈ child.todo → room.state = .sleeping)

structure Watched (config : Config) (name : Bytes) (db : Db) : Prop where
  sane : Db.Sane config db
  registered : name ∈ db.rooms
  pending : ∀ child, db.rewriteChild = some child → Pending name child

theorem pending_failed {child : RewriteChild} (failed : child.failed = true)
    (finished : child.finished = true) : Pending name child :=
  ⟨fun _ => failed, fun running => absurd (finished.symm.trans running) (by simp)⟩

/-- A rewrite that starts while the room is asleep has still to come to it. -/
theorem pending_started {db : Db} (registered : name ∈ db.rooms)
    (asleep : (db.room name).state = .sleeping) {child : RewriteChild}
    (todo : child.todo = db.rooms.toPairs) (running : child.finished = false) :
    Pending name child := by
  rcases Option.isSome_iff_exists.mp (AList.lookup_isSome.mpr registered) with ⟨room, found⟩
  refine ⟨fun finished => absurd (finished.symm.trans running) (by simp), fun _ => ⟨?_, ?_⟩⟩
  · exact ⟨room, todo ▸ (FiniteMap.mem_toPairs _ _ _).mpr found⟩
  · intro other member
    rw [todo] at member
    have same := (FiniteMap.mem_toPairs _ _ _).mp member
    rw [Db.room, same] at asleep
    exact asleep

theorem Watched.forked {db after : Db} (watched : Watched config name db)
    (asleep : (db.room name).state = .sleeping) (forked : Db.Forked db after) :
    Watched config name after := by
  refine ⟨watched.sane.forked forked, forked.rooms ▸ watched.registered, ?_⟩
  rw [forked.rewriteChild]
  intro child equal
  cases equal
  exact pending_started watched.registered asleep rfl rfl

theorem Watched.kept {db after : Db} {now : Nat} (watched : Watched config name db)
    (kept : Db.Kept now db after) : Watched config name after := by
  refine ⟨watched.sane.kept kept, kept.registered name watched.registered, ?_⟩
  rw [kept.rewriteChild]
  exact watched.pending

theorem Watched.hibernated {db after : Db} {room : Bytes} (watched : Watched config name db)
    (hibernated : Db.Hibernated db after room) : Watched config name after := by
  refine ⟨watched.sane.hibernated hibernated,
    (hibernated.rooms name).mpr watched.registered, ?_⟩
  rw [hibernated.rewriteChild]
  exact watched.pending

theorem Watched.finished {db : Db} (watched : Watched config name db) :
    Watched config name db.finishBackgroundRewrite := by
  refine ⟨watched.sane.finished, ?_, ?_⟩
  · rw [Db.rooms_finishBackgroundRewrite]
    exact watched.registered
  · rcases Db.finishBackgroundRewrite_cases db with same | ⟨_, _, _, ⟨_, dropped⟩ |
      ⟨_, committed⟩⟩
    · rw [same]
      exact watched.pending
    · simp [dropped]
    · simp [committed]

theorem Watched.begun {db : Db} (watched : Watched config name db)
    (asleep : (db.room name).state = .sleeping) (call : Call) :
    Watched config name (db.beginCommand call) := by
  have finished := watched.finished
  rcases Db.beginCommand_cases db call with same | ⟨idle, forked⟩
  · rw [same]
    exact finished
  · rw [forked]
    refine finished.forked ?_ (Db.forked_startBackgroundRewrite finished.sane.wellFormed idle)
    rw [Db.room, Db.rooms_finishBackgroundRewrite]
    exact asleep

theorem Watched.executed {db : Db} (watched : Watched config name db)
    (asleep : (db.room name).state = .sleeping) (call : Call)
    (still : ((db.execute call).1.room name).state = .sleeping) :
    Watched config name (db.execute call).1 := by
  unfold Db.execute at still ⊢
  cases args : call.args with
  | nil => exact watched
  | cons first rest =>
    rw [args] at still
    dsimp only at still ⊢
    have begun := watched.begun asleep call
    have head : call.args.head? = some first := by
      rw [args]
      rfl
    have dispatched := Db.dispatched_dispatch begun.sane.wellFormed call head
    generalize ((db.beginCommand call).dispatch call (upper first)).1 = after at still dispatched
    cases dispatched with
    | kept kept => exact begun.kept kept
    | slept room kept hibernated => exact (begun.kept kept).hibernated hibernated
    | forked kept idle =>
        have forked := Db.forked_startBackgroundRewrite kept.wellFormed idle
        refine (begun.kept kept).forked ?_ forked
        rw [Db.room, forked.rooms] at still
        exact still

/-- The child has dealt with the room of another name. -/
theorem Pending.passed {child next : RewriteChild} {entry : Bytes × Room}
    {rest : List (Bytes × Room)} (pending : Pending name child) (running : child.finished = false)
    (todo : child.todo = entry :: rest) (different : entry.1 ≠ name)
    (left : next.todo = rest) (unfinished : next.finished = false) : Pending name next := by
  have here := pending.2 running
  rw [todo] at here
  constructor
  · intro finished
    cases finished.symm.trans unfinished
  · intro _
    rw [left]
    constructor
    · rcases here.1 with ⟨room, listed⟩
      rcases List.mem_cons.mp listed with same | later
      · exact absurd (congrArg Prod.fst same).symm different
      · exact ⟨room, later⟩
    · intro room member
      exact here.2 room (List.mem_cons_of_mem _ member)

theorem Pending.childReadSnapshot {db : Db} {child : RewriteChild} {other : Bytes} {image : Room}
    {rest : List (Bytes × Room)} (pending : Pending name child) (running : child.finished = false)
    (todo : child.todo = (other, image) :: rest) (different : other ≠ name) (now size : Nat) :
    ∀ after, (db.childReadSnapshot child now size other rest).rewriteChild = some after →
      Pending name after := by
  intro after
  unfold Db.childReadSnapshot
  cases found : db.snapshots.lookup other with
  | none =>
      intro equal
      cases equal
      exact pending_failed rfl rfl
  | some file =>
      dsimp only
      by_cases whole : Db.snapshotSize file = size
      · rw [if_pos whole]
        intro equal
        cases equal
        exact pending.passed running todo different rfl running
      · rw [if_neg whole]
        intro equal
        cases equal
        exact pending_failed rfl rfl

/-- The room at which a dump that has started arrives is not this one, unless it comes to it. -/
theorem Pending.different {child : RewriteChild} {now : Nat} {other : Bytes} {image : Room}
    {rest : List (Bytes × Room)} (pending : Pending name child) (running : child.finished = false)
    (started : child.now = some now) (todo : child.todo = (other, image) :: rest)
    (elsewhere : child.next ≠ some name) : other ≠ name := by
  intro same
  subst other
  have asleep : image.state = .sleeping := by
    apply (pending.2 running).2 image
    rw [todo]
    exact List.mem_cons_self
  apply elsewhere
  simp [RewriteChild.next, running, started, todo, asleep]

/-- A step of the child that does not come to the room. -/
theorem pending_childStep {db : Db} {child : RewriteChild} (now : Nat)
    (running : db.rewriteChild = some child) (pending : Pending name child)
    (elsewhere : child.next ≠ some name) :
    ∀ after, (db.childStep now).rewriteChild = some after → Pending name after := by
  intro after
  unfold Db.childStep
  rw [running]
  dsimp only
  cases finished : child.finished with
  | true =>
      rw [if_pos rfl, running]
      intro equal
      cases equal
      exact pending
  | false =>
      rw [if_neg (by simp)]
      cases started : child.now with
      | none =>
          intro equal
          cases equal
          exact ⟨fun done => absurd done (by simp), fun _ => pending.2 finished⟩
      | some start =>
          cases todo : child.todo with
          | nil =>
              rcases (pending.2 finished).1 with ⟨room, listed⟩
              rw [todo] at listed
              cases listed
          | cons entry rest =>
              rcases entry with ⟨other, image⟩
              have different := pending.different finished started todo elsewhere
              dsimp only
              by_cases active : image.state = .active
              · rw [if_pos active]
                intro equal
                cases equal
                exact pending.passed finished todo different rfl rfl
              · rw [if_neg active]
                cases sized : child.statSize with
                | some size => exact pending.childReadSnapshot finished todo different start size after
                | none =>
                    dsimp only
                    cases found : db.snapshots.lookup other with
                    | none =>
                        intro equal
                        cases equal
                        exact pending.passed finished todo different rfl rfl
                    | some file =>
                        intro equal
                        cases equal
                        constructor
                        · intro done
                          cases done
                        · intro _
                          exact todo ▸ pending.2 finished

theorem Watched.childFailed {db : Db} (watched : Watched config name db) :
    Watched config name db.childFail := by
  refine ⟨watched.sane.childFailed, watched.registered, ?_⟩
  intro child equal
  rcases Option.map_eq_some_iff.mp equal with ⟨before, _, rfl⟩
  exact pending_failed rfl rfl

theorem Watched.childStepped {calls : CorruptCalls} (watched : Watched config name disk.db)
    (now : Nat) (meets : disk.db.rewriteChild.bind RewriteChild.next = some name →
      disk.InPlace calls name) :
    Watched config name (disk.childStep now calls).db := by
  have passes : disk.db.rewriteChild.bind RewriteChild.next ≠ some name →
      Watched config name (disk.db.childStep now) := by
    intro elsewhere
    refine ⟨watched.sane.childStepped now, Db.rooms_childStep disk.db now ▸ watched.registered, ?_⟩
    cases running : disk.db.rewriteChild with
    | none =>
        unfold Db.childStep
        simp [running]
    | some child =>
        rw [running] at elsewhere
        exact pending_childStep now running (watched.pending child running) elsewhere
  unfold childStep
  cases next : disk.db.rewriteChild.bind RewriteChild.next with
  | none =>
      apply passes
      rw [next]
      simp
  | some other =>
      dsimp only
      by_cases stops : disk.stopsAt calls other = true
      · rw [if_pos stops]
        exact watched.childFailed
      · rw [if_neg stops]
        apply passes
        rw [next]
        intro same
        cases same
        exact stops (meets next)

/-- While the corrupt file is in place `rewrite_aof` fails. -/
theorem obstacle_isSome {calls : CorruptCalls} (registered : name ∈ disk.db.rooms)
    (asleep : (disk.db.room name).state = .sleeping) (inPlace : disk.InPlace calls name) :
    (disk.discardActiveSnapshots.obstacle calls).isSome := by
  rcases Option.isSome_iff_exists.mp (AList.lookup_isSome.mpr registered) with ⟨room, found⟩
  have sleeping : room.state = .sleeping := by
    rw [Db.room, found] at asleep
    exact asleep
  have stops : disk.discardActiveSnapshots.stopsAt calls name = true := by
    unfold InPlace stopsAt at inPlace
    rw [Bool.and_eq_true, decide_eq_true_eq] at inPlace
    rcases Option.isSome_iff_exists.mp (AList.lookup_isSome.mpr inPlace.1) with ⟨data, present⟩
    have kept : disk.discardActiveSnapshots.corrupt.Holds name := by
      apply AList.lookup_isSome.mp
      simp only [discardActiveSnapshots, CorruptFiles.keep, FiniteMap.lookup_filter, present,
        asleep]
      rfl
    unfold stopsAt
    rw [Bool.and_eq_true, decide_eq_true_eq]
    exact ⟨kept, inPlace.2⟩
  unfold obstacle
  rw [Option.isSome_map, List.find?_isSome]
  refine ⟨(name, room), (FiniteMap.mem_toPairs _ _ _).mpr found, ?_⟩
  simp [sleeping, stops]

theorem dumped_eq_none {calls : CorruptCalls} {now : Nat} {completes : Bool}
    (registered : name ∈ disk.db.rooms) (asleep : (disk.db.room name).state = .sleeping)
    (inPlace : disk.InPlace calls name) :
    disk.discardActiveSnapshots.dumped now calls completes = none := by
  have found := obstacle_isSome registered asleep inPlace
  unfold dumped
  rw [if_neg]
  simp [Option.isNone_iff_eq_none, Option.isSome_iff_ne_none.mp found]

theorem Watched.stepped (watched : Watched config name disk.db) {event : DiskEvent}
    (asleep : (disk.db.room name).state = .sleeping) (meets : disk.MeetsFile name event)
    (still : ((disk.step event).db.room name).state = .sleeping) :
    Watched config name (disk.step event).db := by
  cases event with
  | node event calls =>
      cases event with
      | command call => exact watched.executed asleep call still
      | cleanup now clientFd =>
          exact ⟨watched.sane.stepped (.cleanup now clientFd), watched.registered,
            watched.pending⟩
      | cleanExpired now room =>
          exact watched.kept (Db.kept_cleanExpiredKeys watched.sane.wellFormed now room)
      | hibernateInactive now room =>
          change Watched config name (disk.db.hibernateInactive now room)
          rcases Db.hibernateInactive_spec watched.sane.wellFormed now room with
            same | hibernated
          · rw [same]
            exact watched
          · exact watched.hibernated hibernated
      | childStep now => exact watched.childStepped now meets
      | childFail now => exact watched.childFailed
      | restart now => exact absurd meets id
  | rewriteAof now calls completes =>
      have nothing : disk.discardActiveSnapshots.dumped now calls completes = none :=
        dumped_eq_none watched.registered asleep meets
      have same : (disk.step (.rewriteAof now calls completes)).db =
          disk.db.discardActiveSnapshots := by
        simp only [step, rewriteAof, nothing]
        rfl
      rw [same]
      have sameNode := Db.node_discardActiveSnapshots disk.db
      refine ⟨⟨Db.wellFormed_discardActiveSnapshots watched.sane.wellFormed, watched.sane.config,
        ?_, watched.sane.written⟩, watched.registered, watched.pending⟩
      rw [sameNode]
      exact watched.sane.tidy

theorem FileInPlace.asleep {events : List DiskEvent} (inPlace : FileInPlace name disk events) :
    (disk.db.room name).state = .sleeping := by
  cases events with
  | nil => exact inPlace
  | cons event rest => exact inPlace.1

/-- In a watched state no event replaces the log. -/
theorem installed_eq_none (watched : Watched config name disk.db) {event : DiskEvent}
    (asleep : (disk.db.room name).state = .sleeping) (meets : disk.MeetsFile name event) :
    disk.installed event = none := by
  cases event with
  | node event calls =>
      cases event with
      | command call =>
          unfold installed
          dsimp only
          cases args : call.args with
          | nil => rfl
          | cons first rest =>
              cases running : disk.db.rewriteChild with
              | none => rfl
              | some child =>
                  have pending := watched.pending child running
                  dsimp only
                  rw [if_neg]
                  rw [Bool.and_eq_true, Bool.not_eq_true']
                  intro committed
                  rw [pending.1 committed.1] at committed
                  cases committed.2
      | _ => rfl
  | rewriteAof now calls completes => exact dumped_eq_none watched.registered asleep meets

theorem installed_run (watched : Watched config name disk.db) {front back : List DiskEvent}
    {event : DiskEvent} (inPlace : FileInPlace name disk (front ++ event :: back)) :
    (disk.run front).installed event = none := by
  induction front generalizing disk with
  | nil => exact installed_eq_none watched inPlace.1 inPlace.2.1
  | cons first rest induction =>
      rcases inPlace with ⟨asleep, meets, later⟩
      exact induction (watched.stepped asleep meets later.asleep) later

/-- A file that the loader refuses is none of the node's snapshots. -/
theorem lookup_overwritten (snapshots : FiniteMap Bytes (FiniteMap Bytes Record))
    {files : List (Bytes × Bytes)} (refused : ∀ file ∈ files, decode file.2 = none)
    (room : Bytes) :
    (files.foldl overwrite snapshots).lookup room = snapshots.lookup room ∨
      (files.foldl overwrite snapshots).lookup room = none := by
  induction files generalizing snapshots with
  | nil => exact .inl rfl
  | cons file rest induction =>
      have erased : overwrite snapshots file = snapshots.erase file.1 := by
        rw [overwrite, refused file List.mem_cons_self]
      rw [List.foldl_cons, erased]
      rcases induction (snapshots.erase file.1)
          (fun other later => refused other (List.mem_cons_of_mem _ later)) with same | gone
      · rw [same, FiniteMap.lookup_erase_if]
        by_cases here : room = file.1
        · exact .inr (if_pos here)
        · exact .inl (if_neg here)
      · exact .inr gone

theorem watched_damage {db : Db} (reachable : Reachable config db)
    (registered : name ∈ db.rooms) (idle : db.rewriteChild = none)
    {files : FiniteMap Bytes Bytes}
    (refused : ∀ room data, files.lookup room = some data → decode data = none) :
    Watched config name (damage db files).db := by
  refine ⟨(Db.sane_of_reachable reachable).files ?_, registered, ?_⟩
  · apply lookup_overwritten
    intro file member
    exact refused file.1 file.2 ((FiniteMap.mem_toPairs _ _ _).mp member)
  · intro child running
    cases idle.symm.trans running

end Disk

open Disk

/-- Once the snapshot of a sleeping room is corrupt, no rewrite of the log drops
a key of the room, in any sequence of attempts, commands and watchdog rounds, as
long as the loader refuses what the damage has left, the room stays asleep and every dump
finds the corrupt file in place. -/
theorem corrupt_room_kept {config : Config} {db : Db} (reachable : Reachable config db)
    (idle : db.rewriteChild = none) (name : Bytes) (registered : name ∈ db.rooms)
    (files : FiniteMap Bytes Bytes)
    (refused : ∀ room data, files.lookup room = some data → decode data = none)
    (front back : List DiskEvent) (event : DiskEvent)
    (inPlace : FileInPlace name (damage db files) (front ++ event :: back)) :
    ¬ ((damage db files).run front).DropsKeys event name := by
  intro drops
  rcases drops with ⟨log, _, _, installs, _⟩
  have nothing := installed_run (watched_damage reachable registered idle refused) inPlace
  cases nothing.symm.trans installs

/-- A room with one key goes to sleep, and one byte is left of its file. -/
def sleepingRoom : List Event :=
  [clientCall 1 [ascii "ROOM", ascii "r"],
    clientCall 2 [ascii "SET", ascii "k", ascii "v"],
    clientCall 3 [ascii "ROOM.HIBERNATE", ascii "r"],
    clientCall 4 [ascii "ROOM", ascii "default"]]

def oneByte : FiniteMap Bytes Bytes :=
  (∅ : FiniteMap Bytes Bytes).insert (ascii "r") [0]

/-- The file is as long as it was, and holds nothing but zeros. -/
def zeroed : FiniteMap Bytes Bytes :=
  (∅ : FiniteMap Bytes Bytes).insert (ascii "r") (List.replicate 54 0)

/-- A background rewrite: the command, the steps of the child, the command that
finds it finished. -/
def attempt (now : Nat) (calls : CorruptCalls) : List DiskEvent :=
  [.node (clientCall now [ascii "REWRITEAOF"]) {}, .node (.childStep now) calls,
    .node (.childStep now) calls, .node (.childStep now) calls, .node (.childStep now) calls,
    .node (clientCall now [ascii "PING"]) {}]

/-- Two attempts while the corrupt file cannot be renamed. -/
theorem corrupt_room_kept_sample :
    ¬ ((damage ((Db.fresh {} 0).run sleepingRoom) oneByte).run
        (attempt 5 { renamed := fun _ => false } ++
          (attempt 6 { renamed := fun _ => false }).take 5)).DropsKeys
      (.node (clientCall 6 [ascii "PING"]) {}) (ascii "r") := by
  have idle : ((Db.fresh {} 0).run sleepingRoom).rewriteChild.isNone = true := by
    decide +kernel
  have refused : ∀ room data, oneByte.lookup room = some data → decode data = none := by
    intro room data found
    rw [oneByte, FiniteMap.lookup_insert_if] at found
    by_cases here : room = ascii "r"
    · rw [if_pos here] at found
      cases found
      rfl
    · rw [if_neg here] at found
      cases found
  exact corrupt_room_kept ⟨0, sleepingRoom, rfl⟩ (Option.isNone_iff_eq_none.mp idle)
    (ascii "r") (by decide +kernel) oneByte refused _ [] _ (by decide +kernel)

/-- The first attempt renames the file aside, and the second one commits a log without the
room. A file of zeros is loaded as an empty room, and the first attempt does. -/
theorem corrupt_room_dropped :
    ((damage ((Db.fresh {} 0).run sleepingRoom) oneByte).run
        (attempt 5 {} ++ (attempt 6 {}).take 5)).DropsKeys
      (.node (clientCall 6 [ascii "PING"]) {}) (ascii "r") ∧
    ((damage ((Db.fresh {} 0).run sleepingRoom) zeroed).run
        ((attempt 5 {}).take 5 ++ [.node (.childStep 5) {}])).DropsKeys
      (.node (clientCall 5 [ascii "PING"]) {}) (ascii "r") :=
  ⟨⟨[], ascii "k", 7, by decide +kernel, by decide +kernel, by decide +kernel⟩,
    ⟨[], ascii "k", 7, by decide +kernel, by decide +kernel, by decide +kernel⟩⟩

end SomniumDB
