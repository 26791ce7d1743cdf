import SomniumDB.Abstract.RewriteChild

/-! # Recovery after a crash

Without peers the log alone tells what the live store shows, and no snapshot file
shows a key that the log does not mention, so that the log replayed over the files
shows the live store again. A rewrite keeps this only if its child reads the whole
of every room that was asleep at the fork. -/

namespace SomniumDB

open Bytes LastUpdate

/-! ## A node without peers -/

namespace Node

variable {config : Config} {now : Nat} {node after : Node}

theorem marked_peerless (peerless : config.peerCount = 0) (watermark : Nat)
    (stored : Option Version) (version : Version) :
    marked config watermark stored version = stored :=
  if_pos (.inl peerless)

theorem apply_unmarked (peerless : config.peerCount = 0)
    (unmarked : ∀ place, node.tomb place = none) (change : Change) :
    ∀ place, (node.apply config change).tomb place = none := by
  intro place
  cases change with
  | put target record =>
      simp only [apply, hold_tomb]
      by_cases absent : (node.held target).isNone = true
      · rw [if_pos absent]
        rw [bury_tomb]
        by_cases same : place = target
        · rw [if_pos same]
        · rw [if_neg same]
          exact unmarked place
      · rw [if_neg absent]
        exact unmarked place
  | del target version =>
      simp only [apply, mark, bury_tomb, hold_tomb, marked_peerless peerless]
      by_cases same : place = target
      · rw [if_pos same]
        exact unmarked target
      · rw [if_neg same]
        exact unmarked place

theorem applyAll_unmarked (peerless : config.peerCount = 0)
    (unmarked : ∀ place, node.tomb place = none) (changes : List Change) :
    ∀ place, (node.applyAll config changes).tomb place = none := by
  induction changes generalizing node with
  | nil => exact unmarked
  | cons change rest induction => exact induction (apply_unmarked peerless unmarked change)

theorem step_unmarked (peerless : config.peerCount = 0) (step : Step config now node after)
    (unmarked : ∀ place, node.tomb place = none) : ∀ place, after.tomb place = none := by
  cases step with
  | own step =>
      cases step with
      | settle held settles => exact unmarked
      | issue record issued => exact applyAll_unmarked peerless unmarked record.changes
  | observe ts => exact unmarked
  | receive record change received => exact applyAll_unmarked peerless unmarked record.changes
  | announce fresh above => exact unmarked
  | collect low above =>
      intro place
      change (node.tomb place).filter _ = none
      rw [unmarked place]
      rfl

theorem steps_unmarked (peerless : config.peerCount = 0) (steps : Steps config now node after)
    (unmarked : ∀ place, node.tomb place = none) : ∀ place, after.tomb place = none := by
  induction steps with
  | refl => exact unmarked
  | tail _ step induction => exact step_unmarked peerless step induction

theorem replayAll_unmarked (peerless : config.peerCount = 0)
    (unmarked : ∀ place, node.tomb place = none) (changes : List Change) :
    ∀ place, (node.replayAll config changes).tomb place = none := by
  induction changes generalizing node with
  | nil => exact unmarked
  | cons change rest induction =>
      apply induction
      intro place
      cases change with
      | put target record => exact unmarked place
      | del target version =>
          simp only [replay, mark, observe_tomb, bury_tomb, hold_tomb, marked_peerless peerless]
          by_cases same : place = target
          · rw [if_pos same]
            exact unmarked target
          · rw [if_neg same]
            exact unmarked place

end Node

namespace Db

variable {config : Config} {db after : Db} {now next : Nat}

/-! ## The log and the files -/

/-- Files that show no key unknown to the log make no difference to its replay. -/
theorem visible_replayedOver {base : Place → Option Record} {log : List AofRecord}
    {place : Place} (hidden : Untouched log place → visible now (base place) = none) :
    visible now (replayedOver base log place) =
      visible now (replayedOver (fun _ => none) log place) := by
  cases touched : last Change.place (logReplayed log) place with
  | none =>
      rw [replayedOver_untouched touched, replayedOver_untouched touched]
      exact hidden touched
  | some change =>
      unfold replayedOver
      rw [touched]
      rfl

/-- The log alone tells what the store shows. -/
structure Durable (now : Nat) (db : Db) : Prop where
  follows : db.node.Follows now (fun _ => none) [] db.aof
  /-- A file shows no key that the log does not mention. -/
  files : ∀ place, Untouched db.aof place → visible now (snapshotHeld db.snapshots place) = none
  /-- The rooms of the unexpired writes of the log are in the registry. -/
  registered : ∀ change ∈ logReplayed db.aof, visible now change.result ≠ none →
    change.place.1 ∈ db.rooms
  unmarked : ∀ place, db.node.tomb place = none

theorem Durable.hidden (durable : Durable now db) {place : Place}
    (untouched : Untouched db.aof place) : visible now (db.held place) = none := by
  have shown : visible now (db.held place) = _ := durable.follows.shown place
  rw [shown, replayedOver_untouched untouched]
  rfl

theorem Durable.later (durable : Durable now db) (le : now ≤ next) : Durable next db where
  follows := durable.follows.later le
  files place untouched := by
    have hidden : visible now (snapshotHeld db.snapshots place) = visible now none :=
      durable.files place untouched
    exact visible_mono le hidden
  registered change member shown :=
    durable.registered change member (visible_ne_none_of_later le shown)
  unmarked := durable.unmarked

/-- The log replayed over the files shows what the store shows. -/
theorem Durable.replayed (durable : Durable now db) (place : Place) :
    visible now (replayedOver (snapshotHeld db.snapshots) db.aof place) =
      visible now (db.held place) :=
  (visible_replayedOver (durable.files place)).trans (durable.follows.shown place).symm

theorem Durable.kept (durable : Durable now db) (peerless : db.config.peerCount = 0)
    (kept : Kept now db after) : Durable now after := by
  rcases durable.follows.steps kept.steps with ⟨new, follows⟩
  have grown : after.aof = db.aof ++ new := follows.log
  refine ⟨by rw [grown]; exact follows, ?_, ?_,
    Node.steps_unmarked peerless kept.steps durable.unmarked⟩
  · intro place untouched
    rw [grown] at untouched
    rw [kept.snapshots]
    exact durable.files place untouched.of_append
  · intro change member shown
    rcases mem_logReplayed.mp member with ⟨record, logged, changed⟩
    rcases kept.logged record logged with earlier | present
    · exact kept.registered _
        (durable.registered change (mem_logReplayed.mpr ⟨record, earlier, changed⟩) shown)
    · rw [AofRecord.room_of_mem_replayed changed]
      exact present

theorem Durable.hibernated {name : Bytes} (durable : Durable now db)
    (peerless : db.config.peerCount = 0) (hibernated : Hibernated db after name) :
    Durable now after := by
  rcases durable.follows.steps (hibernated.steps now) with ⟨new, follows⟩
  have grown : after.aof = db.aof ++ new := follows.log
  refine ⟨by rw [grown]; exact follows, ?_, ?_,
    Node.steps_unmarked peerless (hibernated.steps now) durable.unmarked⟩
  · intro place untouched
    rw [hibernated.log] at untouched
    cases found : snapshotHeld after.snapshots place with
    | none => rfl
    | some record =>
        rcases hibernated.written now found with old | current
        · rw [← old]
          exact durable.files place untouched
        · rw [current]
          exact durable.hidden untouched
  · intro change member
    rw [hibernated.log] at member
    intro shown
    exact (hibernated.rooms _).mpr (durable.registered change member shown)

/-- Nothing happens to the content, and at most files are lost. -/
theorem Durable.lost (durable : Durable now db) (node : after.node = db.node)
    (rooms : after.rooms = db.rooms)
    (files : ∀ name, after.snapshots.lookup name = db.snapshots.lookup name ∨
      after.snapshots.lookup name = none) : Durable now after := by
  have log : after.aof = db.aof := congrArg Node.log node
  refine ⟨by rw [log, node]; exact durable.follows, ?_, ?_, by rw [node]; exact durable.unmarked⟩
  · intro place untouched
    rw [log] at untouched
    unfold snapshotHeld
    rcases files place.1 with same | gone
    · rw [same]
      exact durable.files place untouched
    · rw [gone]
      rfl
  · rw [log, rooms]
    exact durable.registered

theorem Durable.forked (durable : Durable now db) (forked : Forked db after) :
    Durable now after := by
  refine durable.lost forked.node forked.rooms ?_
  intro name
  rw [forked.snapshots, discardActiveSnapshots, FiniteMap.lookup_filter]
  cases db.snapshots.lookup name with
  | none => exact .inl rfl
  | some file =>
      rw [Option.filter_some]
      by_cases asleep : decide ((db.room name).state = .sleeping) = true
      · rw [if_pos asleep]
        exact .inl rfl
      · rw [if_neg asleep]
        exact .inr rfl

theorem Durable.childStepped (durable : Durable now db) (wellFormed : db.WellFormed)
    (reads : ∀ name, ¬ db.Misreads name) (time : Nat) : Durable now (db.childStep time) := by
  rcases childStep_node wellFormed time with ⟨held, node, lost⟩
  have same : held = db.held := by
    funext place
    exact (lost place).resolve_right fun gone => reads place.1 gone.1
  rcases childStep_fields db time with ⟨snapshots, child, fields, files⟩
  refine durable.lost (node.trans (by rw [same]; rfl)) (rooms_childStep db time) ?_
  rw [fields]
  exact files

theorem durable_recovered {aof : List AofRecord}
    {snapshots : FiniteMap Bytes (FiniteMap Bytes Record)} (peerless : config.peerCount = 0)
    (recovered : Recovered config aof snapshots now after)
    (files : ∀ place, Untouched aof place → visible now (snapshotHeld snapshots place) = none) :
    Durable now after := by
  rcases recovered with ⟨⟨fresh, _, _, node⟩, _, _, _, sameSnapshots, _, registered⟩
  have log : after.aof = aof :=
    (congrArg Node.log node).trans (Node.replayAll_log config _ (logReplayed aof))
  refine ⟨⟨rfl, ?_⟩, ?_, ?_, ?_⟩
  · intro place
    have held : after.node.held place = replayedOver (snapshotHeld snapshots) aof place := by
      rw [node]
      exact Node.replayAll_held config _ _ place
    rw [held, log]
    exact visible_replayedOver (files place)
  · rw [log, sameSnapshots]
    exact files
  · intro change member _
    rw [log] at member
    rcases mem_logReplayed.mp member with ⟨record, logged, changed⟩
    rw [AofRecord.room_of_mem_replayed changed]
    exact registered record logged
  · rw [node]
    exact Node.replayAll_unmarked peerless (fun _ => rfl) (logReplayed aof)

/-! ## A rewrite -/

theorem Durable.room_mem (durable : Durable now db) {place : Place}
    (shown : visible now (db.held place) ≠ none) : place.1 ∈ db.rooms := by
  have touched : ¬ Untouched db.aof place := fun untouched => shown (durable.hidden untouched)
  rcases Option.ne_none_iff_exists'.mp touched with ⟨change, final⟩
  rcases last_eq_some final with ⟨member, here⟩
  have same : visible now (db.held place) = _ := durable.follows.shown place
  rw [same, replayedOver, final] at shown
  rw [← here]
  exact durable.registered change member shown

theorem Durable.forkable (durable : Durable now db) : Forkable db now := by
  refine ⟨fun place => .inl (durable.unmarked place), ?_⟩
  intro name key absent
  by_contra shown
  cases found : (db.resident name).lookup key with
  | none =>
      rw [found] at shown
      exact shown rfl
  | some record =>
      have here : db.held (name, key) = some record := by
        unfold held
        rw [found, Option.some_or]
      rw [found, ← here] at shown
      exact absent (durable.room_mem shown)

/-- A rewrite under way goes on as it should from the state in which it was started,
or has failed. -/
def Continues (now : Nat) (db : Db) : Prop :=
  ∀ child, db.rewriteChild = some child → ∃ fork start, fork.WellFormed ∧ Durable start fork ∧
    start ≤ now ∧ (∀ name, name ∈ fork.rooms → name ∈ db.rooms) ∧ Rewrites fork now db

theorem continues_idle (idle : db.rewriteChild = none) : Continues now db := by
  intro child busy
  rw [idle] at busy
  cases busy

theorem Continues.later (continues : Continues now db) (le : now ≤ next) :
    Continues next db := by
  intro child busy
  rcases continues child busy with ⟨fork, start, wellFormed, durable, begun, rooms, rewrites⟩
  exact ⟨fork, start, wellFormed, durable, begun.trans le, rooms, rewrites.later le⟩

theorem Continues.kept (continues : Continues now db) (kept : Kept now db after) :
    Continues now after := by
  intro child busy
  rw [kept.rewriteChild] at busy
  rcases continues child busy with ⟨fork, start, wellFormed, durable, begun, rooms, rewrites⟩
  exact ⟨fork, start, wellFormed, durable, begun,
    fun name member => kept.registered name (rooms name member), rewrites.kept kept⟩

theorem Continues.hibernated {name : Bytes} (continues : Continues now db)
    (hibernated : Hibernated db after name) : Continues now after := by
  intro child busy
  rw [hibernated.rewriteChild] at busy
  rcases continues child busy with ⟨fork, start, wellFormed, durable, begun, rooms, rewrites⟩
  exact ⟨fork, start, wellFormed, durable, begun,
    fun other member => (hibernated.rooms other).mpr (rooms other member),
    rewrites.hibernated hibernated⟩

theorem Durable.continues (durable : Durable now db) (wellFormed : db.WellFormed)
    (idle : db.rewriteChild = none) : Continues now db.startBackgroundRewrite.1 := by
  intro child _
  refine ⟨db, now, wellFormed, durable, le_rfl, ?_, rewrites_fork wellFormed idle now⟩
  intro name member
  rw [(forked_startBackgroundRewrite wellFormed idle).rooms]
  exact member

theorem Continues.childStepped (continues : Continues now db) (whole : db.ReadsWhole now) :
    Continues now (db.childStep now) := by
  cases running : db.rewriteChild with
  | none =>
      apply continues_idle
      unfold childStep
      rw [running]
      exact running
  | some child =>
      intro _ _
      rcases continues child running with ⟨fork, start, wellFormed, durable, begun, rooms, rewrites⟩
      refine ⟨fork, start, wellFormed, durable, begun, ?_, rewrites.childStepped whole⟩
      rw [rooms_childStep]
      exact rooms

theorem Continues.childFailed (continues : Continues now db) : Continues now db.childFail := by
  intro _ busy
  rcases Option.map_eq_some_iff.mp busy with ⟨child, running, rfl⟩
  rcases continues child running with ⟨fork, start, wellFormed, durable, begun, rooms, rewrites⟩
  exact ⟨fork, start, wellFormed, durable, begun, rooms, rewrites.childFailed⟩

/-- The unexpired writes of the dump are in rooms of the registry. -/
theorem Durable.registered_ended {fork : Db} {tail : List AofRecord} {child : RewriteChild}
    {start : Nat} (durable : Durable start fork) (wellFormed : fork.WellFormed)
    (begun : start ≤ now) (ended : Ended fork now tail child) :
    ∀ change ∈ logReplayed child.written, visible now change.result ≠ none →
      change.place.1 ∈ fork.rooms := by
  intro change member shown
  rcases ended.written with ⟨front, time, before, copied, written⟩
  rw [written, logReplayed_append, logReplayed_append] at member
  rcases List.mem_append.mp member with live | tombs
  · rcases List.mem_append.mp live with copy | cold
    · exact copied.registered change copy
    · rcases mem_logReplayed_emitCold.mp cold with ⟨name, key, record, found, _, rfl⟩
      have current : visible now (fork.held (name, key)) ≠ none := by
        rw [held_of_cold wellFormed found]
        exact (visible_normalized now (some record)).symm.trans_ne shown
      exact durable.room_mem (visible_ne_none_of_later begun current)
  · rcases mem_logReplayed_emitTombstones.mp tombs with ⟨name, key, version, _, rfl⟩
    exact absurd rfl shown

/-- The log that replaces the old one when the rewrite is committed. -/
theorem Durable.committed {fork : Db} {tail : List AofRecord} {child : RewriteChild}
    {start : Nat} (durable : Durable now db) (forkDurable : Durable start fork)
    (wellFormed : fork.WellFormed) (begun : start ≤ now)
    (rooms : ∀ name, name ∈ fork.rooms → name ∈ db.rooms)
    (underway : Underway fork now tail db child) (ended : Ended fork now tail child) :
    Durable now { db with rewriteChild := none, aof := child.written ++ tail } := by
  have log : db.aof = fork.aof ++ tail := underway.follows.log
  refine ⟨⟨rfl, ?_⟩, ?_, ?_, durable.unmarked⟩
  · intro place
    have nothing : ∀ record : Record, none = some record → Untouched tail place →
        visible now (some record) = visible now (fork.held place) := by
      rintro _ ⟨⟩
    exact (underway.replayed wellFormed forkDurable.forkable begun ended place nothing).symm
  · intro place untouched
    have both := untouched
    unfold Untouched at both
    rw [logReplayed_append, last_append, Option.or_eq_none_iff] at both
    cases found : snapshotHeld db.snapshots place with
    | none => rfl
    | some record =>
        rw [underway.files place record both.1 found]
        by_contra shown
        rcases ended.written with ⟨front, time, before, copied, written⟩
        rcases complete_ended wellFormed forkDurable.forkable begun before copied both.1 shown with
          ⟨copy, member⟩
        refine last_eq_none_iff.mp both.2 (.put place copy) ?_ rfl
        rw [written, logReplayed_append]
        exact List.mem_append_left _ member
  · intro change member shown
    rw [logReplayed_append] at member
    rcases List.mem_append.mp member with dump | since
    · exact rooms _ (forkDurable.registered_ended wellFormed begun ended change dump shown)
    · apply durable.registered change _ shown
      rw [log, logReplayed_append]
      exact List.mem_append_right _ since

/-! ## Runs -/

/-- What holds after every event, as long as no child misses keys or misreads a
file. -/
structure Preserved (config : Config) (now : Nat) (db : Db) : Prop where
  sane : Sane config db
  durable : Durable now db
  continues : Continues now db

theorem Preserved.later (preserved : Preserved config now db) (le : now ≤ next) :
    Preserved config next db :=
  ⟨preserved.sane, preserved.durable.later le, preserved.continues.later le⟩

theorem Preserved.kept (preserved : Preserved config now db) (peerless : config.peerCount = 0)
    (kept : Kept now db after) : Preserved config now after := by
  have alone : db.config.peerCount = 0 := preserved.sane.config ▸ peerless
  exact ⟨preserved.sane.kept kept, preserved.durable.kept alone kept,
    preserved.continues.kept kept⟩

theorem Preserved.hibernated {name : Bytes} (preserved : Preserved config now db)
    (peerless : config.peerCount = 0) (hibernated : Hibernated db after name) :
    Preserved config now after := by
  have alone : db.config.peerCount = 0 := preserved.sane.config ▸ peerless
  exact ⟨preserved.sane.hibernated hibernated, preserved.durable.hibernated alone hibernated,
    preserved.continues.hibernated hibernated⟩

theorem Preserved.forked (preserved : Preserved config now db) (idle : db.rewriteChild = none) :
    Preserved config now db.startBackgroundRewrite.1 := by
  have wellFormed := preserved.sane.wellFormed
  have forked := forked_startBackgroundRewrite wellFormed idle
  exact ⟨preserved.sane.forked forked, preserved.durable.forked forked,
    preserved.durable.continues wellFormed idle⟩

theorem Preserved.finished (preserved : Preserved config now db) :
    Preserved config now db.finishBackgroundRewrite := by
  have sane := preserved.sane.finished
  have durable := preserved.durable
  rcases finishBackgroundRewrite_cases db with same | ⟨child, running, finished, outcome⟩
  · rw [same]
    exact preserved
  · rcases outcome with ⟨_, dropped⟩ | ⟨succeeded, committed⟩
    · rw [dropped] at sane ⊢
      exact ⟨sane, durable.lost rfl rfl fun _ => .inl rfl, continues_idle rfl⟩
    · rcases preserved.continues child running with
        ⟨fork, start, wellFormed, forkDurable, begun, rooms, rewrites⟩
      rcases rewrites with ⟨other, same, _, failed⟩ | ⟨tail, other, underway⟩
      · obtain rfl : child = other := Option.some.inj (running.symm.trans same)
        rw [succeeded] at failed
        cases failed
      · obtain rfl : child = other := Option.some.inj (running.symm.trans underway.busy)
        have ended := underway.ended finished
        rw [underway.sinceFork] at committed
        rw [committed] at sane ⊢
        exact ⟨sane, durable.committed forkDurable wellFormed begun rooms underway ended,
          continues_idle rfl⟩

theorem Preserved.executed {call : Call} (preserved : Preserved config call.now db)
    (peerless : config.peerCount = 0) : Preserved config call.now (db.execute call).1 := by
  unfold execute
  cases args : call.args with
  | nil => exact preserved
  | cons first rest =>
      have begun : Preserved config call.now (db.beginCommand call) := by
        rcases beginCommand_cases db call with same | ⟨idle, forked⟩
        · rw [same]
          exact preserved.finished
        · rw [forked]
          exact preserved.finished.forked idle
      have dispatched := dispatched_dispatch begun.sane.wellFormed call
        (show call.args.head? = some first by rw [args]; rfl)
      generalize ((db.beginCommand call).dispatch call (upper first)).1 = after at dispatched ⊢
      cases dispatched with
      | kept kept => exact begun.kept peerless kept
      | slept name kept hibernated => exact (begun.kept peerless kept).hibernated peerless hibernated
      | forked kept idle => exact (begun.kept peerless kept).forked idle

/-- The child is not about to miss a key, nor to set aside a file that has grown. -/
structure ReadsSafely (db : Db) (now : Nat) : Prop where
  whole : db.ReadsWhole now
  size : ∀ name, ¬ db.Misreads name

theorem Preserved.stepped {event : Event} (preserved : Preserved config event.now db)
    (peerless : config.peerCount = 0)
    (safe : ∀ now, event = .childStep now → db.ReadsSafely now) :
    Preserved config event.now (db.step event) := by
  have sane := preserved.sane
  cases event with
  | command call => exact preserved.executed peerless
  | cleanup time clientFd =>
      exact preserved.kept peerless ⟨.refl, ⟨sane.wellFormed.exclusive, sane.wellFormed.asleep⟩,
        rfl, rfl, rfl, rfl, fun _ => id, fun _ member => .inl member⟩
  | cleanExpired time name =>
      exact preserved.kept peerless (kept_cleanExpiredKeys sane.wellFormed time name)
  | hibernateInactive time name =>
      rcases hibernateInactive_spec sane.wellFormed time name with same | hibernated
      · change Preserved config time (db.hibernateInactive time name)
        rw [same]
        exact preserved
      · exact preserved.hibernated peerless hibernated
  | childStep time =>
      have reads := safe time rfl
      exact ⟨sane.childStepped time, preserved.durable.childStepped sane.wellFormed reads.size time,
        preserved.continues.childStepped reads.whole⟩
  | childFail time =>
      exact ⟨sane.childFailed, preserved.durable.lost rfl rfl fun _ => .inl rfl,
        preserved.continues.childFailed⟩
  | restart time =>
      have recovered := recovered_recover db.config db.aof db.snapshots time sane.tidy.sound
      have alone : db.config.peerCount = 0 := sane.config ▸ peerless
      exact ⟨sane.stepped (.restart time),
        durable_recovered alone recovered preserved.durable.files,
        continues_idle recovered.rewriteChild⟩

/-- Every step of a child of a rewrite is safe. -/
def SafeReads : Db → List Event → Prop
  | _, [] => True
  | db, event :: rest =>
      (∀ now, event = .childStep now → db.ReadsSafely now) ∧ (db.step event).SafeReads rest

theorem Preserved.ran {events : List Event} (preserved : Preserved config now db)
    (peerless : config.peerCount = 0) (chronological : Chronological now events)
    (safe : db.SafeReads events) : Preserved config (endOfRun now events) (db.run events) := by
  induction events generalizing db now with
  | nil => exact preserved
  | cons event rest induction =>
      rcases chronological with ⟨le, later⟩
      rw [run_cons, endOfRun_cons]
      exact induction ((preserved.later le).stepped peerless safe.1) later safe.2

theorem preserved_fresh (peerless : config.peerCount = 0) (start : Nat) :
    Preserved config start (fresh config start) := by
  have recovered := recovered_recover config [] ∅ start (by simp)
  exact ⟨sane_fresh config start, durable_recovered peerless recovered fun _ _ => rfl,
    continues_idle recovered.rewriteChild⟩

/-- Recovery shows what the live store showed. -/
theorem Preserved.restores (preserved : Preserved config now db) (place : Place) :
    visible now ((db.restart now).held place) = visible now (db.held place) := by
  rcases recovered_recover db.config db.aof db.snapshots now preserved.sane.tidy.sound with
    ⟨⟨fresh, _, _, node⟩, _⟩
  have held : (db.restart now).held place =
      replayedOver (snapshotHeld db.snapshots) db.aof place := by
    change (recover db.config db.aof db.snapshots now).node.held place = _
    rw [node]
    exact Node.replayAll_held db.config _ _ place
  rw [held]
  exact preserved.durable.replayed place

end Db

open Db

/-- On a node without peers, killing the process at any moment and recovering at any
later time shows every key as the live store would have shown it, as long as no child
of a rewrite has missed a key of a sleeping room or set aside its file. -/
theorem recovery_restores (config : Config) (peerless : config.peerCount = 0) (start : Nat)
    (events : List Event) (chronological : Chronological start events)
    (safe : (fresh config start).SafeReads events) (now : Nat)
    (reached : endOfRun start events ≤ now) (place : Place) :
    let db := (fresh config start).run events
    visible now ((db.restart now).held place) = visible now (db.held place) := by
  intro db
  have preserved := (preserved_fresh peerless start).ran peerless chronological safe
  exact (preserved.later reached).restores place

/-- A child whose rooms were all awake reads no file. -/
theorem readsSafely_of_awake {db : Db} {now : Nat}
    (awake : (db.rewriteChild.all fun child => child.statSize.isNone &&
      child.todo.all fun entry => decide (entry.2.state = .active)) = true) :
    db.ReadsSafely now := by
  refine ⟨?_, ?_⟩
  · intro child name room rest busy _ _ todo asleep
    rw [busy, Option.all_some, todo, List.all_cons, asleep] at awake
    simp at awake
  · rintro name ⟨child, size, room, rest, file, busy, _, _, taken, _⟩
    rw [busy, Option.all_some, taken] at awake
    simp at awake

/-- A rewrite of one key, with a write after the fork, is committed by the last
command. -/
def writtenDuringRewrite : List Event :=
  [clientCall 1 [ascii "ROOM", ascii "r"],
    clientCall 2 [ascii "SET", ascii "k", ascii "a"],
    clientCall 3 [ascii "REWRITEAOF"], .childStep 4,
    clientCall 5 [ascii "SET", ascii "j", ascii "b"], .childStep 6, .childStep 7,
    clientCall 8 [ascii "PING"]]

theorem safeReads_writtenDuringRewrite : (fresh {} 0).SafeReads writtenDuringRewrite := by
  refine ⟨by rintro _ ⟨⟩, by rintro _ ⟨⟩, by rintro _ ⟨⟩, ?_, by rintro _ ⟨⟩, ?_, ?_,
    by rintro _ ⟨⟩, trivial⟩
  · rintro _ ⟨⟩
    exact readsSafely_of_awake (by decide +kernel)
  · rintro _ ⟨⟩
    exact readsSafely_of_awake (by decide +kernel)
  · rintro _ ⟨⟩
    exact readsSafely_of_awake (by decide +kernel)

theorem recovery_restores_sample :
    let db := (fresh {} 0).run writtenDuringRewrite
    db.rewriteChild.isNone = true ∧
      visible 20 ((db.restart 20).held (ascii "r", ascii "k")) =
        visible 20 (db.held (ascii "r", ascii "k")) := by
  refine ⟨by decide +kernel, ?_⟩
  exact recovery_restores {} rfl 0 writtenDuringRewrite
    ⟨by decide, by decide, by decide, by decide, by decide, by decide, by decide, by decide,
      trivial⟩ safeReads_writtenDuringRewrite 20 (by decide) _

/-- While the child is at work the parent wakes a room, evicts its key and puts the
room to sleep again, before the child comes to it; the last command commits the
rewrite. -/
def evictedDuringRewrite : List Event :=
  [clientCall 1 [ascii "ROOM", ascii "r"],
    clientCall 2 [ascii "SET", ascii "k", ascii "a"],
    clientCall 3 [ascii "ROOM.HIBERNATE", ascii "r"],
    clientCall 10 [ascii "REWRITEAOF"],
    clientCall 11 [ascii "ROOM", ascii "r"],
    .command
      { clientFd := 5, args := [ascii "SET", ascii "j", ascii "b"], now := 12
        victims := [ascii "k"] },
    clientCall 13 [ascii "ROOM.HIBERNATE", ascii "r"],
    .childStep 14, .childStep 15, .childStep 16, .childStep 17,
    clientCall 18 [ascii "PING"]]

/-- Cold storage starts empty, and the key is neither in the log nor in a file. -/
theorem recovery_loses_key :
    let db := (fresh { maxKeys := 1 } 0).run evictedDuringRewrite
    Chronological 0 evictedDuringRewrite ∧ endOfRun 0 evictedDuringRewrite ≤ 20 ∧
      visible 20 (db.held (ascii "r", ascii "k")) = some (ascii "a", 0) ∧
      visible 20 ((db.restart 20).held (ascii "r", ascii "k")) = none := by
  refine ⟨⟨by decide, by decide, by decide, by decide, by decide, by decide, by decide,
    by decide, by decide, by decide, by decide, by decide, trivial⟩, by decide, ?_, ?_⟩ <;>
    decide +kernel

end SomniumDB
