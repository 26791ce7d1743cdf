import SomniumDB.Abstract.Rewrite

/-! # The child of a rewrite

One step of the child copies one room of the fork. A rewrite that ends well has
copied all of it, so that the dump and the log since the fork replay to what the
parent shows. -/

namespace SomniumDB

open Bytes LastUpdate

namespace Db

/-- The child is about to be through with a room that was asleep at the fork: every
unexpired key of the room which the log since the fork does not change is in the
snapshot file, or was in cold storage at the fork. -/
def ReadsWhole (db : Db) (now : Nat) : Prop :=
  ∀ child name room rest, db.rewriteChild = some child → child.finished = false →
    child.now.isSome → child.todo = (name, room) :: rest → room.state = .sleeping →
    (child.statSize.isSome ∨ db.snapshots.lookup name = none) →
    ∀ key, visible now (db.held (name, key)) ≠ none →
      Untouched (db.aof.drop db.rewriteFrom) (name, key) →
      child.cold.find name key = none → (snapshotHeld db.snapshots (name, key)).isSome

variable {fork db after : Db} {now : Nat} {tail : List AofRecord} {child : RewriteChild}

/-- The child has ended with an error. -/
def RewriteFailed (db : Db) : Prop :=
  ∃ child, db.rewriteChild = some child ∧ child.finished = true ∧ child.failed = true

/-- The child gets on with its work. -/
theorem Underway.progressed {next : RewriteChild} (underway : Underway fork now tail db child)
    (progress : Copying fork now tail next ∨ Ended fork now tail next) :
    Underway fork now tail { db with rewriteChild := some next } next :=
  ⟨rfl, underway.origin, underway.follows, underway.files, progress⟩

theorem Underway.ended (underway : Underway fork now tail db child)
    (finished : child.finished = true) : Ended fork now tail child := by
  rcases underway.progress with copying | ended
  · rw [copying.unfinished] at finished
    cases finished
  · exact ended

theorem Underway.sinceFork (underway : Underway fork now tail db child) :
    db.aof.drop db.rewriteFrom = tail := by
  have log : db.aof = fork.aof ++ tail := underway.follows.log
  rw [underway.origin, log, List.drop_left]

/-- What the condition says of a room, in terms of the fork. -/
theorem Underway.whole {name : Bytes} {room : Room} {rest : List (Bytes × Room)} {start : Nat}
    (underway : Underway fork now tail db child) (copying : Copying fork now tail child)
    (whole : db.ReadsWhole now) (running : child.now = some start)
    (todo : child.todo = (name, room) :: rest) (asleep : room.state = .sleeping)
    (through : child.statSize.isSome ∨ db.snapshots.lookup name = none) (key : Bytes)
    (untouched : Untouched tail (name, key)) (cold : fork.cold.find name key = none)
    (shown : visible now (fork.held (name, key)) ≠ none) :
    (snapshotHeld db.snapshots (name, key)).isSome := by
  have current := underway.follows.shown (name, key)
  rw [replayedOver_untouched untouched] at current
  refine whole child name room rest underway.busy copying.unfinished (by rw [running]; rfl) todo
    asleep through key ?_ (underway.sinceFork ▸ untouched) (copying.cold ▸ cold)
  change visible now (db.node.held (name, key)) ≠ none
  rw [current]
  exact shown

theorem Underway.childRead {name : Bytes} {room : Room} {rest : List (Bytes × Room)}
    {start size : Nat} (underway : Underway fork now tail db child)
    (copying : Copying fork now tail child) (whole : db.ReadsWhole now)
    (running : child.now = some start) (todo : child.todo = (name, room) :: rest)
    (asleep : room.state = .sleeping) (taken : child.statSize = some size) :
    RewriteFailed (db.childReadSnapshot child start size name rest) ∨
      ∃ next, Underway fork now tail (db.childReadSnapshot child start size name rest) next := by
  have complete := underway.whole copying whole running todo asleep (.inl (by rw [taken]; rfl))
  unfold childReadSnapshot
  cases found : db.snapshots.lookup name with
  | none => exact .inl ⟨_, rfl, rfl, rfl⟩
  | some file =>
      dsimp only
      by_cases same : snapshotSize file = size
      · rw [if_pos same]
        refine .inr ⟨_, underway.progressed (.inl ?_)⟩
        have copied := copying.copied
        rw [todo] at copied
        have registered : (name, room) ∈ fork.rooms.toPairs :=
          copying.todo _ (by rw [todo]; exact List.mem_cons_self)
        have todoRest : ∀ entry ∈ rest, entry ∈ fork.rooms.toPairs := by
          intro entry member
          exact copying.todo entry (by rw [todo]; exact List.mem_cons_of_mem _ member)
        refine ⟨copying.unfinished, copying.cold, copying.tombstones, todoRest, copying.clock, ?_⟩
        refine copied.file (copying.clock start running) registered underway.files ?_ complete
        intro key
        rw [snapshotHeld, found]
        exact FiniteMap.lookup_mapValues Record.normalized file key
      · rw [if_neg same]
        exact .inl ⟨_, rfl, rfl, rfl⟩

theorem Underway.childStepped (underway : Underway fork now tail db child)
    (whole : db.ReadsWhole now) :
    RewriteFailed (db.childStep now) ∨
      ∃ next, Underway fork now tail (db.childStep now) next := by
  unfold childStep
  rw [underway.busy]
  dsimp only
  rcases underway.progress with copying | ended
  · rw [if_neg (by rw [copying.unfinished]; decide)]
    split
    · refine .inr ⟨_, underway.progressed (.inl ?_)⟩
      refine ⟨copying.unfinished, copying.cold, copying.tombstones, copying.todo, ?_,
        copying.copied⟩
      rintro start ⟨⟩
      exact le_rfl
    · rename_i start running
      have before := copying.clock start running
      have copied := copying.copied
      split
      · rename_i through
        refine .inr ⟨_, underway.progressed (.inr ⟨rfl, child.written, start, before, ?_, ?_⟩)⟩
        · rw [through] at copied
          exact copied
        · rw [copying.cold, copying.tombstones]
      · rename_i name room rest todo
        rw [todo] at copied
        have registered : (name, room) ∈ fork.rooms.toPairs :=
          copying.todo _ (by rw [todo]; exact List.mem_cons_self)
        have todoRest : ∀ entry ∈ rest, entry ∈ fork.rooms.toPairs := by
          intro entry member
          exact copying.todo entry (by rw [todo]; exact List.mem_cons_of_mem _ member)
        by_cases awake : room.state = .active
        · rw [if_pos awake]
          exact .inr ⟨_, underway.progressed (.inl ⟨copying.unfinished, copying.cold,
            copying.tombstones, todoRest, copying.clock, copied.ram before registered awake⟩)⟩
        · rw [if_neg awake]
          have asleep : room.state = .sleeping := by
            cases state : room.state with
            | active => exact absurd state awake
            | sleeping => rfl
          cases taken : child.statSize with
          | none =>
              dsimp only
              split
              · rename_i missing
                have complete := underway.whole copying whole running todo asleep (.inr missing)
                have nothing : Copied fork now tail rest (child.written ++ emitKeys start name ∅) :=
                  copied.file before registered underway.files
                    (by intro key; rw [snapshotHeld, missing]; rfl) complete
                rw [show emitKeys start name ∅ = [] from rfl, List.append_nil] at nothing
                exact .inr ⟨_, underway.progressed (.inl ⟨copying.unfinished, copying.cold,
                  copying.tombstones, todoRest, copying.clock, nothing⟩)⟩
              · exact .inr ⟨_, underway.progressed (.inl ⟨copying.unfinished, copying.cold,
                  copying.tombstones, copying.todo, copying.clock, copying.copied⟩)⟩
          | some size => exact underway.childRead copying whole running todo asleep taken
  · rw [if_pos ended.finished]
    exact .inr ⟨child, underway⟩

/-- The rewrite has failed, or it goes on. -/
def Rewrites (fork : Db) (now : Nat) (db : Db) : Prop :=
  RewriteFailed db ∨ ∃ tail child, Underway fork now tail db child

theorem Rewrites.later {next : Nat} (rewrites : Rewrites fork now db) (le : now ≤ next) :
    Rewrites fork next db := by
  rcases rewrites with failed | ⟨tail, child, underway⟩
  · exact .inl failed
  · exact .inr ⟨tail, child, underway.later le⟩

theorem Rewrites.kept (rewrites : Rewrites fork now db) (kept : Kept now db after) :
    Rewrites fork now after := by
  rcases rewrites with ⟨child, busy, ended⟩ | ⟨tail, child, underway⟩
  · exact .inl ⟨child, kept.rewriteChild.trans busy, ended⟩
  · rcases underway.kept kept with ⟨new, reached⟩
    exact .inr ⟨tail ++ new, child, reached⟩

theorem Rewrites.hibernated {name : Bytes} (rewrites : Rewrites fork now db)
    (hibernated : Hibernated db after name) : Rewrites fork now after := by
  rcases rewrites with ⟨child, busy, ended⟩ | ⟨tail, child, underway⟩
  · exact .inl ⟨child, hibernated.rewriteChild.trans busy, ended⟩
  · rcases underway.hibernated hibernated with ⟨new, reached⟩
    exact .inr ⟨tail ++ new, child, reached⟩

theorem Rewrites.busy (rewrites : Rewrites fork now db) :
    ∃ child, db.rewriteChild = some child := by
  rcases rewrites with ⟨child, busy, _⟩ | ⟨_, child, underway⟩
  · exact ⟨child, busy⟩
  · exact ⟨child, underway.busy⟩

/-- A command of the parent, which cannot start another rewrite. -/
theorem Rewrites.dispatched {call : Call} (rewrites : Rewrites fork call.now db)
    (dispatched : Dispatched db call after) : Rewrites fork call.now after := by
  cases dispatched with
  | kept kept => exact rewrites.kept kept
  | slept name kept hibernated => exact (rewrites.kept kept).hibernated hibernated
  | forked kept idle =>
      rcases rewrites.busy with ⟨child, busy⟩
      rw [kept.rewriteChild, busy] at idle
      cases idle

theorem Rewrites.childStepped (rewrites : Rewrites fork now db) (whole : db.ReadsWhole now) :
    Rewrites fork now (db.childStep now) := by
  rcases rewrites with ⟨child, busy, finished, failed⟩ | ⟨tail, child, underway⟩
  · refine .inl ⟨child, ?_, finished, failed⟩
    unfold childStep
    rw [busy]
    simp only [finished, if_true]
    exact busy
  · rcases underway.childStepped whole with failed | ⟨next, reached⟩
    · exact .inl failed
    · exact .inr ⟨tail, next, reached⟩

theorem Rewrites.childFailed (rewrites : Rewrites fork now db) :
    Rewrites fork now db.childFail := by
  rcases rewrites.busy with ⟨child, busy⟩
  refine .inl ⟨{ child with finished := true, failed := true }, ?_, rfl, rfl⟩
  rw [childFail, busy]
  rfl

/-! ## The fork and the commit -/

/-- The files that a rewrite keeps are those of the rooms asleep at the fork. -/
theorem filesAgree_fork {after : Db} (forked : Forked db after) (start : Nat) :
    FilesAgree db start [] after := by
  rintro ⟨name, key⟩ record _ found
  unfold snapshotHeld at found
  rw [forked.snapshots, discardActiveSnapshots, FiniteMap.lookup_filter] at found
  cases state : (db.room name).state with
  | active =>
      cases stored : db.snapshots.lookup name <;>
        simp [stored, state, Option.filter_some] at found
  | sleeping =>
      have kept : (db.snapshots.lookup name).filter
          (fun _ => decide ((db.room name).state = .sleeping)) = db.snapshots.lookup name := by
        cases db.snapshots.lookup name <;> simp [Option.filter_some, state]
      dsimp only at found
      rw [kept] at found
      have resident : (db.resident name).lookup key = some record :=
        (resident_of_asleep state key).trans found
      unfold held
      rw [resident, Option.some_or]

theorem rewrites_fork (wellFormed : db.WellFormed) (idle : db.rewriteChild = none)
    (start : Nat) : Rewrites db start db.startBackgroundRewrite.1 := by
  have forked := forked_startBackgroundRewrite wellFormed idle
  refine .inr ⟨[], _, forked.rewriteChild, forked.rewriteFrom, ⟨?_, ?_⟩,
    filesAgree_fork forked start, .inl ⟨rfl, rfl, rfl, fun _ => id, by rintro _ ⟨⟩, ?_, ?_, ?_⟩⟩
  · rw [forked.node, List.append_nil]
    rfl
  · intro place
    rw [forked.node]
    rfl
  · rintro change ⟨⟩
  · rintro change ⟨⟩
  · intro place registered absent
    rcases Option.isSome_iff_exists.mp (AList.lookup_isSome.mpr registered) with ⟨room, found⟩
    exact absurd (List.mem_map_of_mem ((FiniteMap.mem_toPairs _ _ _).mpr found)) absent

/-- What a rewrite asks of the state in which it is started. -/
structure Forkable (db : Db) (start : Nat) : Prop where
  /-- No key has both a tombstone and a record. -/
  apart : ∀ place, db.findTomb place.1 place.2 = none ∨ db.held place = none
  /-- Every room whose snapshot has an unexpired record is in the registry. -/
  registered : ∀ name key, name ∉ db.rooms →
    visible start ((db.resident name).lookup key) = none

/-- The records that come from the fork agree with it. -/
theorem agrees_ended {front : List AofRecord} {time : Nat} (wellFormed : fork.WellFormed)
    (copied : Copied fork now tail [] front) {change : Change}
    (member : change ∈ logReplayed (front ++ emitCold time fork.cold)) :
    ∃ place record, change = .put place record ∧
      (Untouched tail place → visible now (some record) = visible now (fork.held place)) := by
  rw [logReplayed_append] at member
  rcases List.mem_append.mp member with written | cold
  · exact copied.agrees change written
  · rcases mem_logReplayed_emitCold.mp cold with ⟨name, key, record, found, _, rfl⟩
    refine ⟨(name, key), record.normalized, rfl, fun _ => ?_⟩
    rw [held_of_cold wellFormed found]
    exact visible_normalized now (some record)

/-- An unexpired key of the fork has been written. -/
theorem complete_ended {front : List AofRecord} {start time : Nat} {place : Place}
    (wellFormed : fork.WellFormed) (forkable : Forkable fork start) (begun : start ≤ now)
    (before : time ≤ now) (copied : Copied fork now tail [] front) (untouched : Untouched tail place)
    (shown : visible now (fork.held place) ≠ none) :
    ∃ record, .put place record ∈ logReplayed (front ++ emitCold time fork.cold) := by
  rw [logReplayed_append]
  cases cold : fork.cold.find place.1 place.2 with
  | none =>
      have registered : place.1 ∈ fork.rooms := by
        by_contra absent
        have hidden := forkable.registered place.1 place.2 absent
        unfold held at shown
        rw [cold, Option.or_none] at shown
        exact visible_ne_none_of_later begun shown hidden
      rcases copied.complete place registered List.not_mem_nil untouched cold shown with
        ⟨record, member⟩
      exact ⟨record, List.mem_append_left _ member⟩
  | some record =>
      rw [held_of_cold wellFormed cold, visible_some] at shown
      have current : record.expired time = false := by
        by_contra past
        rw [Record.expired_mono before (Bool.of_not_eq_false past)] at shown
        exact shown rfl
      exact ⟨record.normalized, List.mem_append_right _
        (mem_logReplayed_emitCold.mpr ⟨place.1, place.2, record, cold, current, rfl⟩)⟩

/-- A place that the log since the fork does not change is replayed from what the
child wrote, over what a snapshot file has of it. -/
theorem visible_ended {start : Nat} {place : Place} {base : Option Record}
    (wellFormed : fork.WellFormed) (forkable : Forkable fork start) (begun : start ≤ now)
    (ended : Ended fork now tail child) (untouched : Untouched tail place)
    (agrees : ∀ record, base = some record →
      visible now (some record) = visible now (fork.held place)) :
    visible now (((last Change.place (logReplayed child.written) place).map
      Change.result).getD base) = visible now (fork.held place) := by
  rcases ended.written with ⟨front, time, before, copied, written⟩
  have tombs : last Change.place (logReplayed (emitTombstones fork.tombstones)) place =
      (fork.findTomb place.1 place.2).map fun version => (Change.del place version).normalized :=
    last_emitTombstones fork.tombstones place
  rw [written, logReplayed_append, last_append, tombs]
  cases buried : fork.findTomb place.1 place.2 with
  | some version =>
      have absent : fork.held place = none := (forkable.apart place).resolve_left (by simp [buried])
      rw [absent]
      rfl
  | none =>
      rw [Option.map_none, Option.none_or]
      cases final : last Change.place (logReplayed (front ++ emitCold time fork.cold)) place with
      | some change =>
          rcases last_eq_some final with ⟨member, here⟩
          rcases agrees_ended wellFormed copied member with ⟨other, record, rfl, same⟩
          obtain rfl : other = place := here
          exact same untouched
      | none =>
          change visible now base = _
          cases stored : base with
          | some record => exact agrees record stored
          | none =>
              by_contra different
              rcases complete_ended wellFormed forkable begun before copied
                untouched (Ne.symm different) with ⟨record, member⟩
              exact last_eq_none_iff.mp final _ member rfl

/-- The dump followed by the log since the fork. -/
theorem Underway.replayed {start : Nat} (wellFormed : fork.WellFormed)
    (forkable : Forkable fork start) (begun : start ≤ now)
    (underway : Underway fork now tail db child) (ended : Ended fork now tail child)
    (place : Place) {base : Option Record}
    (agrees : ∀ record, base = some record → Untouched tail place →
      visible now (some record) = visible now (fork.held place)) :
    visible now (((last Change.place (logReplayed (child.written ++ tail)) place).map
      Change.result).getD base) = visible now (db.held place) := by
  have shown : visible now (db.held place) = _ := underway.follows.shown place
  rw [shown, replayedOver, logReplayed_append, last_append]
  cases changed : last Change.place (logReplayed tail) place with
  | some change => rfl
  | none =>
      rw [Option.none_or]
      exact visible_ended wellFormed forkable begun ended changed
        fun record found => agrees record found changed

theorem finishBackgroundRewrite_eq (busy : db.rewriteChild = some child)
    (finished : child.finished = true) (succeeded : child.failed = false) :
    db.finishBackgroundRewrite =
      { db with rewriteChild := none, aof := child.written ++ db.aof.drop db.rewriteFrom } := by
  simp only [finishBackgroundRewrite, busy, finished, succeeded, Bool.not_true,
    Bool.false_eq_true, if_false]

end Db

end SomniumDB
