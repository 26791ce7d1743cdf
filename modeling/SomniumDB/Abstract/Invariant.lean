import SomniumDB.Abstract.Replay
import SomniumDB.Core.Runs

/-! # Invariants of every run of a node -/

namespace SomniumDB

open Bytes FsUtil

namespace Node

/-- The log holds sound records only, and every tombstone is above the
watermark. -/
structure Tidy (node : Node) : Prop where
  sound : ∀ record ∈ node.log, record.Sound
  above : ∀ place version, node.tomb place = some version → node.watermark < version.ts

theorem marked_above {config : Config} {watermark : Nat} {stored : Option Version}
    {version result : Version} (above : ∀ old, stored = some old → watermark < old.ts)
    (equal : marked config watermark stored version = some result) :
    watermark < result.ts := by
  unfold marked at equal
  by_cases alone : config.peerCount = 0 ∨ version.ts ≤ watermark
  · rw [if_pos alone] at equal
    exact above result equal
  · rw [if_neg alone] at equal
    rw [not_or, Nat.not_le] at alone
    cases stored with
    | none =>
        cases equal
        exact alone.2
    | some old =>
        cases equal
        exact alone.2.trans_le (Version.ts_le_of_le (le_max_right old version))

theorem apply_above {node : Node} (config : Config) (change : Change)
    (above : ∀ place version, node.tomb place = some version → node.watermark < version.ts) :
    ∀ place version, (node.apply config change).tomb place = some version →
      node.watermark < version.ts := by
  intro place version here
  cases change with
  | put target record =>
      simp only [apply, hold_tomb] at here
      by_cases absent : (node.held target).isNone = true
      · rw [if_pos absent] at here
        rw [bury_tomb] at here
        by_cases same : place = target
        · rw [if_pos same] at here
          cases here
        · rw [if_neg same] at here
          exact above place version here
      · rw [if_neg absent] at here
        exact above place version here
  | del target delete =>
      simp only [apply, mark, bury_tomb, hold_tomb, hold_watermark] at here
      by_cases same : place = target
      · rw [if_pos same] at here
        exact marked_above (above target) here
      · rw [if_neg same] at here
        exact above place version here

theorem applyAll_above {config : Config} {node : Node} {changes : List Change}
    (above : ∀ place version, node.tomb place = some version → node.watermark < version.ts) :
    ∀ place version, (node.applyAll config changes).tomb place = some version →
      node.watermark < version.ts := by
  induction changes generalizing node with
  | nil => exact above
  | cons change rest induction =>
      have next := apply_above config change above
      rw [← apply_watermark config node change] at next
      have later := induction next
      rw [apply_watermark] at later
      exact later

theorem tidy_commit {config : Config} {node : Node} {record : AofRecord} (tidy : node.Tidy)
    (sound : record.Sound) : (node.commit config record).Tidy := by
  refine ⟨?_, ?_⟩
  · intro other member
    rcases List.mem_append.mp member with earlier | new
    · exact tidy.sound other earlier
    · rw [List.mem_singleton.mp new]
      exact sound
  · intro place version here
    rw [commit, applyAll_watermark]
    exact applyAll_above tidy.above place version here

theorem tidy_step {config : Config} {now : Nat} {node after : Node}
    (step : Step config now node after) (tidy : node.Tidy) : after.Tidy := by
  cases step with
  | own step =>
      cases step with
      | settle held settles => exact ⟨tidy.sound, tidy.above⟩
      | issue record issued => exact tidy_commit tidy issued.sound
  | observe ts => exact ⟨tidy.sound, tidy.above⟩
  | receive record change received => exact tidy_commit tidy received.sound
  | announce fresh above => exact ⟨tidy.sound, tidy.above⟩
  | collect low above =>
      refine ⟨tidy.sound, ?_⟩
      intro place version here
      simpa using (Option.filter_eq_some_iff.mp here).2

theorem tidy_steps {config : Config} {now : Nat} {node after : Node}
    (steps : Steps config now node after) (tidy : node.Tidy) : after.Tidy := by
  induction steps with
  | refl => exact tidy
  | tail _ step induction => exact tidy_step step induction

theorem replay_above {config : Config} {node : Node} {change : Change}
    (above : ∀ place version, node.tomb place = some version → node.watermark < version.ts) :
    ∀ place version, (node.replay config change).tomb place = some version →
      node.watermark < version.ts := by
  intro place version here
  cases change with
  | put target record => exact above place version here
  | del target delete =>
      simp only [replay, mark, observe_tomb, bury_tomb, hold_tomb, hold_watermark] at here
      by_cases same : place = target
      · rw [if_pos same] at here
        exact marked_above (above target) here
      · rw [if_neg same] at here
        exact above place version here

@[simp] theorem replay_watermark (config : Config) (node : Node) (change : Change) :
    (node.replay config change).watermark = node.watermark := by
  cases change <;> rfl

@[simp] theorem replay_log (config : Config) (node : Node) (change : Change) :
    (node.replay config change).log = node.log := by
  cases change <;> rfl

theorem replayAll_log (config : Config) (node : Node) (changes : List Change) :
    (node.replayAll config changes).log = node.log := by
  induction changes generalizing node with
  | nil => rfl
  | cons change rest induction => exact (induction _).trans (replay_log config node change)

theorem tidy_replayAll {node : Node} (config : Config) (changes : List Change)
    (tidy : node.Tidy) : (node.replayAll config changes).Tidy := by
  induction changes generalizing node with
  | nil => exact tidy
  | cons change rest induction =>
      apply induction
      refine ⟨?_, ?_⟩
      · rw [replay_log]
        exact tidy.sound
      · rw [replay_watermark]
        exact replay_above tidy.above

end Node

namespace Db

/-- What holds of a node in every state of every run. -/
structure Sane (config : Config) (db : Db) : Prop where
  wellFormed : db.WellFormed
  config : db.config = config
  tidy : db.node.Tidy
  /-- The child of a rewrite writes sound records. -/
  written : ∀ child, db.rewriteChild = some child → ∀ record ∈ child.written, record.Sound

variable {config : Config} {db after : Db} {now : Nat}

theorem Sane.kept (sane : Sane config db) (kept : Kept now db after) :
    Sane config after where
  wellFormed := kept.wellFormed
  config := kept.config.trans sane.config
  tidy := Node.tidy_steps kept.steps sane.tidy
  written := by
    rw [kept.rewriteChild]
    exact sane.written

theorem Sane.hibernated {name : Bytes} (sane : Sane config db)
    (hibernated : Hibernated db after name) : Sane config after where
  wellFormed := hibernated.wellFormed
  config := hibernated.config.trans sane.config
  tidy := Node.tidy_steps (hibernated.steps 0) sane.tidy
  written := by
    rw [hibernated.rewriteChild]
    exact sane.written

/-! ## Rewriting the log -/

theorem resident_discardActiveSnapshots (name : Bytes) :
    db.discardActiveSnapshots.resident name = db.resident name := by
  rw [resident_eq, resident_eq]
  have room : db.discardActiveSnapshots.room name = db.room name := rfl
  rw [room]
  cases state : (db.room name).state with
  | active => simp only [residentOf, state]
  | sleeping =>
      have kept : db.discardActiveSnapshots.snapshots.lookup name =
          db.snapshots.lookup name := by
        unfold discardActiveSnapshots
        rw [FiniteMap.lookup_filter]
        cases db.snapshots.lookup name <;> simp [Option.filter_some, state]
      rw [kept]

theorem node_discardActiveSnapshots (db : Db) : db.discardActiveSnapshots.node = db.node := by
  apply Node.ext <;> try rfl
  funext place
  simp only [node, held, resident_discardActiveSnapshots]
  rfl

theorem wellFormed_discardActiveSnapshots (wellFormed : db.WellFormed) :
    db.discardActiveSnapshots.WellFormed := by
  refine ⟨?_, wellFormed.asleep⟩
  intro name key record found
  rw [resident_discardActiveSnapshots] at found
  exact wellFormed.exclusive name key record found

/-- A rewrite that is started leaves the content alone. -/
structure Forked (db after : Db) : Prop where
  node : after.node = db.node
  wellFormed : after.WellFormed
  config : after.config = db.config
  snapshots : after.snapshots = db.discardActiveSnapshots.snapshots
  rooms : after.rooms = db.rooms
  rewriteFrom : after.rewriteFrom = db.aof.length
  rewriteChild : after.rewriteChild = some
    { todo := db.rooms.toPairs, cold := db.cold, tombstones := db.tombstones }

theorem forked_startBackgroundRewrite (wellFormed : db.WellFormed)
    (idle : db.rewriteChild = none) : Forked db db.startBackgroundRewrite.1 := by
  have discarded := wellFormed_discardActiveSnapshots wellFormed
  have sameNode := node_discardActiveSnapshots db
  unfold startBackgroundRewrite
  rw [idle]
  exact ⟨sameNode, ⟨discarded.exclusive, discarded.asleep⟩, rfl, rfl, rfl, rfl, rfl⟩

theorem Sane.forked (sane : Sane config db) (forked : Forked db after) :
    Sane config after where
  wellFormed := forked.wellFormed
  config := forked.config.trans sane.config
  tidy := forked.node ▸ sane.tidy
  written := by
    rw [forked.rewriteChild]
    intro child equal
    cases equal
    simp

theorem Sane.dispatched {call : Call} (sane : Sane config db)
    (dispatched : Dispatched db call after) : Sane config after := by
  cases dispatched with
  | kept kept => exact sane.kept kept
  | slept name kept hibernated => exact (sane.kept kept).hibernated hibernated
  | forked kept idle =>
      exact (sane.kept kept).forked (forked_startBackgroundRewrite kept.wellFormed idle)

theorem sound_emit {start : Nat} {name key : Bytes} {held : Record} {record : AofRecord}
    (member : record ∈ emit start name key held) : record.Sound := by
  have upperSet : upper (ascii "SET") = ascii "SET" := by decide
  unfold emit at member
  by_cases expired : held.expired start = true
  · rw [if_pos expired] at member
    cases member
  · rw [if_neg expired] at member
    rw [List.mem_singleton.mp member]
    exact .inl ⟨upperSet, by simp⟩

theorem sound_emitKeys {start : Nat} {name : Bytes} {keys : FiniteMap Bytes Record}
    {record : AofRecord} (member : record ∈ emitKeys start name keys) : record.Sound := by
  rcases List.mem_flatMap.mp member with ⟨entry, _, emitted⟩
  exact sound_emit emitted

theorem sound_emitCold {start : Nat} {cold : NestedMap Bytes Bytes Record}
    {record : AofRecord} (member : record ∈ emitCold start cold) : record.Sound := by
  rcases List.mem_flatMap.mp member with ⟨entry, _, emitted⟩
  exact sound_emit emitted

theorem sound_emitTombstones {tombstones : NestedMap Bytes Bytes Version}
    {record : AofRecord} (member : record ∈ emitTombstones tombstones) : record.Sound := by
  have upperDel : upper (ascii "DEL") = ascii "DEL" := by decide
  rcases List.mem_map.mp member with ⟨entry, _, rfl⟩
  exact .inr (.inr (.inl ⟨upperDel, by simp⟩))

/-- Every record of a dump is one that replay applies. -/
theorem sound_dumpState {start : Nat} {record : AofRecord}
    (member : record ∈ db.dumpState start) : record.Sound := by
  unfold dumpState at member
  rcases List.mem_append.mp member with front | tombs
  · rcases List.mem_append.mp front with rooms | cold
    · rcases List.mem_flatMap.mp rooms with ⟨entry, _, emitted⟩
      exact sound_emitKeys emitted
    · exact sound_emitCold cold
  · exact sound_emitTombstones tombs

theorem Sane.finished (sane : Sane config db) : Sane config db.finishBackgroundRewrite := by
  rcases finishBackgroundRewrite_cases db with same | ⟨child, running, _, ⟨_, dropped⟩ |
    ⟨_, committed⟩⟩
  · rw [same]
    exact sane
  · rw [dropped]
    exact ⟨⟨sane.wellFormed.exclusive, sane.wellFormed.asleep⟩, sane.config,
      ⟨sane.tidy.sound, sane.tidy.above⟩, by simp⟩
  · rw [committed]
    refine ⟨⟨sane.wellFormed.exclusive, sane.wellFormed.asleep⟩, sane.config,
      ⟨?_, sane.tidy.above⟩, by simp⟩
    intro record member
    rcases List.mem_append.mp member with written | tail
    · exact sane.written child running record written
    · exact sane.tidy.sound record (List.mem_of_mem_drop tail)

theorem Sane.begun (sane : Sane config db) (call : Call) :
    Sane config (db.beginCommand call) := by
  have finished := sane.finished
  rcases beginCommand_cases db call with same | ⟨idle, forked⟩
  · rw [same]
    exact finished
  · rw [forked]
    exact finished.forked (forked_startBackgroundRewrite finished.wellFormed idle)

theorem Sane.executed (sane : Sane config db) (call : Call) :
    Sane config (db.execute call).1 := by
  unfold execute
  cases args : call.args with
  | nil => exact sane
  | cons first rest =>
      have begun := sane.begun call
      exact begun.dispatched (dispatched_dispatch begun.wellFormed call (by rw [args]; rfl))

/-- Snapshot files are lost. -/
theorem Sane.files (sane : Sane config db)
    {snapshots : FiniteMap Bytes (FiniteMap Bytes Record)}
    (files : ∀ name, snapshots.lookup name = db.snapshots.lookup name ∨
      snapshots.lookup name = none) : Sane config { db with snapshots } := by
  refine ⟨⟨?_, sane.wellFormed.asleep⟩, sane.config, ⟨sane.tidy.sound, sane.tidy.above⟩,
    sane.written⟩
  intro name key record found
  apply sane.wellFormed.exclusive name key record
  rw [resident_eq] at found ⊢
  change (residentOf (db.room name) (snapshots.lookup name)).lookup key = _ at found
  rcases files name with same | gone
  · rw [← same]
    exact found
  · rw [gone] at found
    unfold residentOf at found ⊢
    cases outcome : (db.room name).state with
    | sleeping =>
        simp only [outcome] at found
        cases found
    | active =>
        simp only [outcome] at found
        exact found

/-- The child of a rewrite only writes its own records, or loses a file. -/
theorem Sane.child (sane : Sane config db) {child : RewriteChild}
    {snapshots : FiniteMap Bytes (FiniteMap Bytes Record)}
    (files : ∀ name, snapshots.lookup name = db.snapshots.lookup name ∨
      snapshots.lookup name = none)
    (written : ∀ record ∈ child.written, record.Sound) :
    Sane config { db with snapshots, rewriteChild := some child } := by
  have lost := sane.files files
  refine ⟨⟨lost.wellFormed.exclusive, lost.wellFormed.asleep⟩, lost.config,
    ⟨lost.tidy.sound, lost.tidy.above⟩, ?_⟩
  intro other equal
  cases equal
  exact written

theorem Sane.childRead (sane : Sane config db) {child : RewriteChild}
    (written : ∀ record ∈ child.written, record.Sound) (start size : Nat) (name : Bytes)
    (rest : List (Bytes × Room)) :
    Sane config (db.childReadSnapshot child start size name rest) := by
  unfold childReadSnapshot
  cases db.snapshots.lookup name with
  | none => exact sane.child (fun _ => .inl rfl) written
  | some file =>
      dsimp only
      by_cases unchanged : snapshotSize file = size
      · rw [if_pos unchanged]
        refine sane.child (fun _ => .inl rfl) ?_
        intro record member
        rcases List.mem_append.mp member with earlier | new
        · exact written record earlier
        · exact sound_emitKeys new
      · rw [if_neg unchanged]
        refine sane.child ?_ written
        intro other
        by_cases grown : size < snapshotSize file
        · rw [if_pos grown]
          rw [FiniteMap.lookup_erase_if]
          by_cases same : other = name
          · rw [if_pos same]
            exact .inr rfl
          · rw [if_neg same]
            exact .inl rfl
        · rw [if_neg grown]
          exact .inl rfl

theorem Sane.childStepped (sane : Sane config db) (now : Nat) :
    Sane config (db.childStep now) := by
  unfold childStep
  cases running : db.rewriteChild with
  | none => exact sane
  | some child =>
      dsimp only
      have written := sane.written child running
      by_cases finished : child.finished = true
      · rw [if_pos finished]
        exact sane
      · rw [if_neg finished]
        cases child.now with
        | none => exact sane.child (fun _ => .inl rfl) written
        | some start =>
            rcases child.todo with _ | ⟨⟨name, room⟩, rest⟩
            · refine sane.child (fun _ => .inl rfl) ?_
              intro record member
              rcases List.mem_append.mp member with front | tombs
              · rcases List.mem_append.mp front with earlier | cold
                · exact written record earlier
                · exact sound_emitCold cold
              · exact sound_emitTombstones tombs
            · dsimp only
              by_cases awake : room.state = .active
              · rw [if_pos awake]
                refine sane.child (fun _ => .inl rfl) ?_
                intro record member
                rcases List.mem_append.mp member with earlier | new
                · exact written record earlier
                · exact sound_emitKeys new
              · rw [if_neg awake]
                cases child.statSize with
                | none =>
                    dsimp only
                    cases db.snapshots.lookup name with
                    | none => exact sane.child (fun _ => .inl rfl) written
                    | some _ => exact sane.child (fun _ => .inl rfl) written
                | some _ => exact sane.childRead written _ _ _ _

theorem Sane.childFailed (sane : Sane config db) : Sane config db.childFail := by
  refine ⟨⟨sane.wellFormed.exclusive, sane.wellFormed.asleep⟩, sane.config,
    ⟨sane.tidy.sound, sane.tidy.above⟩, ?_⟩
  intro child equal
  rcases Option.map_eq_some_iff.mp equal with ⟨before, running, rfl⟩
  exact sane.written before running

theorem sane_recovered {aof : List AofRecord}
    {snapshots : FiniteMap Bytes (FiniteMap Bytes Record)}
    (sound : ∀ record ∈ aof, record.Sound)
    (recovered : Recovered config aof snapshots now db) : Sane config db := by
  rcases recovered with ⟨⟨fresh, _, _, equal⟩, wellFormed, sameConfig, _, _, idle, _⟩
  have tidy : (snapshotNode aof snapshots).Tidy := ⟨sound, by simp [snapshotNode]⟩
  have replayed := Node.tidy_replayAll config (logReplayed aof) tidy
  refine ⟨wellFormed, sameConfig, ?_, ?_⟩
  · rw [equal]
    exact ⟨replayed.sound, replayed.above⟩
  · rw [idle]
    simp

/-- Every event keeps the invariant. -/
theorem Sane.stepped (sane : Sane config db) (event : Event) :
    Sane config (db.step event) := by
  cases event with
  | command call => exact sane.executed call
  | cleanup now clientFd =>
      exact ⟨⟨sane.wellFormed.exclusive, sane.wellFormed.asleep⟩, sane.config,
        ⟨sane.tidy.sound, sane.tidy.above⟩, sane.written⟩
  | cleanExpired now name => exact sane.kept (kept_cleanExpiredKeys sane.wellFormed now name)
  | hibernateInactive now name =>
      change Sane config (db.hibernateInactive now name)
      rcases hibernateInactive_spec sane.wellFormed now name with same | hibernated
      · rw [same]
        exact sane
      · exact sane.hibernated hibernated
  | childStep now => exact sane.childStepped now
  | childFail now => exact sane.childFailed
  | restart now =>
      have recovered := recovered_recover db.config db.aof db.snapshots now sane.tidy.sound
      rw [sane.config] at recovered
      change Sane config (recover db.config db.aof db.snapshots now)
      rw [sane.config]
      exact sane_recovered sane.tidy.sound recovered

theorem Sane.ran (sane : Sane config db) (events : List Event) :
    Sane config (db.run events) := by
  induction events generalizing db with
  | nil => exact sane
  | cons event rest induction => exact induction (sane.stepped event)

theorem sane_fresh (config : Config) (now : Nat) : Sane config (fresh config now) :=
  sane_recovered (by simp) (recovered_recover config [] ∅ now (by simp))

theorem sane_of_reachable (reachable : Reachable config db) : Sane config db := by
  rcases reachable with ⟨start, events, rfl⟩
  exact (sane_fresh config start).ran events

end Db

end SomniumDB
