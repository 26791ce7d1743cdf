import SomniumDB.Abstract.Dump
import SomniumDB.Abstract.Events

/-! # A rewrite in the background

What the parent of a rewrite shows at any moment follows from what it showed at
the fork and from the records appended since. The child copies the state of the
fork, partly from files that the parent may have replaced in the meantime. -/

namespace SomniumDB

open Bytes LastUpdate

/-! ## The log since the fork -/

/-- What a place has after the records of a log, given what it had before. -/
def replayedOver (held : Place → Option Record) (log : List AofRecord) (place : Place) :
    Option Record :=
  ((last Change.place (logReplayed log) place).map Change.result).getD (held place)

/-- No record of the log changes the place. -/
def Untouched (log : List AofRecord) (place : Place) : Prop :=
  last Change.place (logReplayed log) place = none

theorem replayedOver_untouched {held : Place → Option Record} {log : List AofRecord}
    {place : Place} (untouched : Untouched log place) :
    replayedOver held log place = held place := by
  rw [replayedOver, untouched]
  rfl

theorem Untouched.of_append {front back : List AofRecord} {place : Place}
    (untouched : Untouched (front ++ back) place) : Untouched front place := by
  unfold Untouched at *
  rw [logReplayed_append, last_append] at untouched
  exact (Option.or_eq_none_iff.mp untouched).2

theorem visible_normalized_result (now : Nat) (change : Change) :
    visible now change.normalized.result = visible now change.result := by
  cases change with
  | put place record => exact visible_normalized now (some record)
  | del place version => rfl

/-- A record leaves the same behind whether it is applied or replayed. -/
theorem visible_last_replayed {now : Nat} (record : AofRecord) (place : Place)
    {applied replayed : Option Record} (same : visible now applied = visible now replayed) :
    visible now (((last Change.place record.changes place).map Change.result).getD applied) =
      visible now
        (((last Change.place record.replayed place).map Change.result).getD replayed) := by
  unfold AofRecord.replayed
  by_cases merged : Option.map upper record.args.head? = some (ascii "CRDTMERGE")
  · rw [if_pos merged]
    cases last Change.place record.changes place with
    | none => exact same
    | some change => rfl
  · rw [if_neg merged]
    rw [last_map Change.normalized_place]
    cases last Change.place record.changes place with
    | none => exact same
    | some change => exact (visible_normalized_result now change).symm

namespace Node

variable {config : Config} {now : Nat} {node after : Node} {held : Place → Option Record}
  {log tail : List AofRecord}

/-- The node shows what the log since the fork leaves of the content at the fork. -/
structure Follows (node : Node) (now : Nat) (held : Place → Option Record)
    (log tail : List AofRecord) : Prop where
  log : node.log = log ++ tail
  shown : ∀ place, visible now (node.held place) = visible now (replayedOver held tail place)

theorem Follows.later {later : Nat} (follows : node.Follows now held log tail)
    (le : now ≤ later) : node.Follows later held log tail :=
  ⟨follows.log, fun place => visible_mono le (follows.shown place)⟩

theorem visible_settles {before after : Option Record} (settles : Settles now before after) :
    visible now after = visible now before := by
  rcases settles with rfl | ⟨rfl, record, rfl, past⟩ | rfl
  · rfl
  · rw [visible_some, past]
    rfl
  · exact visible_normalized now before

theorem Follows.commit (follows : node.Follows now held log tail) (config : Config)
    (record : AofRecord) : (node.commit config record).Follows now held log (tail ++ [record]) := by
  refine ⟨?_, ?_⟩
  · change node.log ++ [record] = _
    rw [follows.log, List.append_assoc]
  · intro place
    have applied : (node.commit config record).held place =
        ((last Change.place record.changes place).map Change.result).getD (node.held place) :=
      applyAll_held config node record.changes place
    rw [applied, visible_last_replayed record place (follows.shown place)]
    unfold replayedOver
    rw [logReplayed_append, last_append]
    have single : logReplayed [record] = record.replayed := List.flatMap_singleton _ _
    rw [single]
    cases last Change.place record.replayed place <;> rfl

theorem Follows.step (follows : node.Follows now held log tail)
    (step : Step config now node after) :
    ∃ new, after.Follows now held log (tail ++ new) := by
  have same : ∀ other : Node, other.log = node.log → other.held = node.held →
      ∃ new, other.Follows now held log (tail ++ new) := by
    intro other sameLog sameHeld
    refine ⟨[], ⟨?_, ?_⟩⟩
    · rw [sameLog, follows.log, List.append_nil]
    · rw [sameHeld, List.append_nil]
      exact follows.shown
  cases step with
  | own step =>
      cases step with
      | settle kept settles =>
          refine ⟨[], ⟨?_, ?_⟩⟩
          · rw [List.append_nil]
            exact follows.log
          · intro place
            rw [List.append_nil, ← follows.shown place]
            exact visible_settles (settles place)
      | issue record issued => exact ⟨[record], follows.commit config record⟩
  | observe ts => exact same _ rfl rfl
  | receive record change received => exact ⟨[record], follows.commit config record⟩
  | announce fresh above => exact same _ rfl rfl
  | collect low above => exact same _ rfl rfl

theorem Follows.steps (follows : node.Follows now held log tail)
    (steps : Steps config now node after) :
    ∃ new, after.Follows now held log (tail ++ new) := by
  induction steps with
  | refl => exact ⟨[], by rw [List.append_nil]; exact follows⟩
  | tail _ step induction =>
      rcases induction with ⟨first, reached⟩
      rcases reached.step step with ⟨later, final⟩
      exact ⟨first ++ later, by rw [← List.append_assoc]; exact final⟩

end Node

namespace Db

/-! ## What the child copies -/

/-- The records of a room asleep are those of its file. -/
theorem resident_of_asleep {db : Db} {name : Bytes} (asleep : (db.room name).state = .sleeping)
    (key : Bytes) :
    (db.resident name).lookup key = snapshotHeld db.snapshots (name, key) := by
  rw [resident_eq, residentOf, asleep, snapshotHeld]
  cases db.snapshots.lookup name with
  | none => rfl
  | some file => exact FiniteMap.lookup_mapValues Record.normalized file key

/-- The snapshot files agree with the content at the fork, wherever the log since
the fork does not say otherwise. -/
def FilesAgree (fork : Db) (now : Nat) (tail : List AofRecord) (db : Db) : Prop :=
  ∀ place record, Untouched tail place → snapshotHeld db.snapshots place = some record →
    visible now (some record) = visible now (fork.held place)

/-- The records written are those of the fork, and none is missing of the rooms
that the child is through with, cold storage apart. -/
structure Copied (fork : Db) (now : Nat) (tail : List AofRecord) (todo : List (Bytes × Room))
    (written : List AofRecord) : Prop where
  agrees : ∀ change ∈ logReplayed written, ∃ place record, change = .put place record ∧
    (Untouched tail place → visible now (some record) = visible now (fork.held place))
  registered : ∀ change ∈ logReplayed written, change.place.1 ∈ fork.rooms
  complete : ∀ place, place.1 ∈ fork.rooms → place.1 ∉ todo.map Prod.fst →
    Untouched tail place → fork.cold.find place.1 place.2 = none →
    visible now (fork.held place) ≠ none → ∃ record, .put place record ∈ logReplayed written

/-- The child is at work. -/
structure Copying (fork : Db) (now : Nat) (tail : List AofRecord) (child : RewriteChild) :
    Prop where
  unfinished : child.finished = false
  cold : child.cold = fork.cold
  tombstones : child.tombstones = fork.tombstones
  todo : ∀ entry ∈ child.todo, entry ∈ fork.rooms.toPairs
  clock : ∀ start, child.now = some start → start ≤ now
  copied : Copied fork now tail child.todo child.written

/-- The child has ended well. -/
structure Ended (fork : Db) (now : Nat) (tail : List AofRecord) (child : RewriteChild) :
    Prop where
  finished : child.finished = true
  written : ∃ front start, start ≤ now ∧ Copied fork now tail [] front ∧
    child.written = front ++ emitCold start fork.cold ++ emitTombstones fork.tombstones

/-- A rewrite that has not failed so far. -/
structure Underway (fork : Db) (now : Nat) (tail : List AofRecord) (db : Db)
    (child : RewriteChild) : Prop where
  busy : db.rewriteChild = some child
  origin : db.rewriteFrom = fork.aof.length
  follows : db.node.Follows now fork.held fork.aof tail
  files : FilesAgree fork now tail db
  progress : Copying fork now tail child ∨ Ended fork now tail child

variable {fork db after : Db} {now next : Nat} {tail : List AofRecord} {child : RewriteChild}

theorem visible_ne_none_of_later {record : Option Record} (le : now ≤ next)
    (shown : visible next record ≠ none) : visible now record ≠ none := by
  intro hidden
  rw [visible_later le, hidden] at shown
  exact shown rfl

theorem Copied.later {todo : List (Bytes × Room)} {written : List AofRecord}
    (copied : Copied fork now tail todo written) (le : now ≤ next) (new : List AofRecord) :
    Copied fork next (tail ++ new) todo written := by
  refine ⟨?_, copied.registered, ?_⟩
  · intro change member
    rcases copied.agrees change member with ⟨place, record, rfl, agrees⟩
    exact ⟨place, record, rfl, fun untouched => visible_mono le (agrees untouched.of_append)⟩
  · intro place registered through untouched cold shown
    exact copied.complete place registered through untouched.of_append cold
      (visible_ne_none_of_later le shown)

theorem Copying.later (copying : Copying fork now tail child) (le : now ≤ next)
    (new : List AofRecord) : Copying fork next (tail ++ new) child :=
  ⟨copying.unfinished, copying.cold, copying.tombstones, copying.todo,
    fun start running => (copying.clock start running).trans le, copying.copied.later le new⟩

theorem Ended.later (ended : Ended fork now tail child) (le : now ≤ next)
    (new : List AofRecord) : Ended fork next (tail ++ new) child := by
  rcases ended.written with ⟨front, start, before, copied, written⟩
  exact ⟨ended.finished, front, start, before.trans le, copied.later le new, written⟩

theorem FilesAgree.later (files : FilesAgree fork now tail db) (le : now ≤ next)
    (new : List AofRecord) : FilesAgree fork next (tail ++ new) db :=
  fun place record untouched found =>
    visible_mono le (files place record untouched.of_append found)

theorem Underway.later (underway : Underway fork now tail db child) (le : now ≤ next) :
    Underway fork next tail db child := by
  have files := underway.files.later le []
  have progress := underway.progress.imp (fun copying => copying.later le [])
    (fun ended => ended.later le [])
  rw [List.append_nil] at files progress
  exact ⟨underway.busy, underway.origin, underway.follows.later le, files, progress⟩

/-! ## The parent -/

/-- A step of the parent: the log grows, and a file that is written has what the
parent holds. -/
theorem Underway.evolved {config : Config} (underway : Underway fork now tail db child)
    (steps : Node.Steps config now db.node after.node)
    (sameChild : after.rewriteChild = db.rewriteChild)
    (sameFrom : after.rewriteFrom = db.rewriteFrom)
    (files : ∀ place record, snapshotHeld after.snapshots place = some record →
      snapshotHeld db.snapshots place = some record ∨
        visible now (some record) = visible now (db.held place)) :
    ∃ new, Underway fork now (tail ++ new) after child := by
  rcases underway.follows.steps steps with ⟨new, follows⟩
  refine ⟨new, sameChild.trans underway.busy, sameFrom.trans underway.origin, follows, ?_, ?_⟩
  · intro place record untouched found
    rcases files place record found with old | current
    · exact underway.files place record untouched.of_append old
    · have shown := underway.follows.shown place
      rw [replayedOver_untouched untouched.of_append] at shown
      exact current.trans shown
  · exact underway.progress.imp (fun copying => copying.later le_rfl new)
      (fun ended => ended.later le_rfl new)

theorem Underway.kept (underway : Underway fork now tail db child) (kept : Kept now db after) :
    ∃ new, Underway fork now (tail ++ new) after child :=
  underway.evolved kept.steps kept.rewriteChild kept.rewriteFrom
    fun _ _ found => .inl (by rw [kept.snapshots] at found; exact found)

/-- The file that is written when a room is put to sleep has what the room held. -/
theorem Hibernated.written {name : Bytes} (hibernated : Hibernated db after name) (now : Nat)
    {place : Place} {record : Record}
    (found : snapshotHeld after.snapshots place = some record) :
    snapshotHeld db.snapshots place = some record ∨
      visible now (some record) = visible now (db.held place) := by
  unfold snapshotHeld at found
  rw [hibernated.snapshots, FiniteMap.lookup_insert_if] at found
  by_cases here : place.1 = name
  · rw [if_pos here] at found
    right
    rcases Option.map_eq_some_iff.mp found with ⟨ram, present, rfl⟩
    have awake := hibernated.awake
    rw [← here] at awake present
    have heldHere : db.held place = some ram := held_of_keysOf awake present
    rw [heldHere]
    exact visible_normalized now (some ram)
  · rw [if_neg here] at found
    exact .inl found

theorem Underway.hibernated {name : Bytes} (underway : Underway fork now tail db child)
    (hibernated : Hibernated db after name) :
    ∃ new, Underway fork now (tail ++ new) after child :=
  underway.evolved (hibernated.steps now) hibernated.rewriteChild hibernated.rewriteFrom
    fun _ _ found => hibernated.written now found

theorem beginCommand_busy {call : Call} (busy : db.rewriteChild = some child)
    (unfinished : child.finished = false) : db.beginCommand call = db := by
  have settled : db.finishBackgroundRewrite = db := by
    unfold finishBackgroundRewrite
    rw [busy]
    simp [unfinished]
  unfold beginCommand
  rw [settled]
  simp [busy]

/-! ## The child -/

/-- The child writes the keys of the next room. -/
theorem Copied.emitted {name : Bytes} {room : Room} {rest : List (Bytes × Room)}
    {written : List AofRecord} {keys : FiniteMap Bytes Record} {start : Nat}
    (copied : Copied fork now tail ((name, room) :: rest) written) (le : start ≤ now)
    (known : name ∈ fork.rooms)
    (agrees : ∀ key record, keys.lookup key = some record → Untouched tail (name, key) →
      visible now (some record) = visible now (fork.held (name, key)))
    (complete : ∀ key, Untouched tail (name, key) → fork.cold.find name key = none →
      visible now (fork.held (name, key)) ≠ none → (keys.lookup key).isSome) :
    Copied fork now tail rest (written ++ emitKeys start name keys) := by
  refine ⟨?_, ?_, ?_⟩
  · intro change member
    rw [logReplayed_append] at member
    rcases List.mem_append.mp member with earlier | new
    · exact copied.agrees change earlier
    · rcases mem_logReplayed_emitKeys.mp new with ⟨key, record, found, _, rfl⟩
      refine ⟨(name, key), record.normalized, rfl, fun untouched => ?_⟩
      exact (visible_normalized now (some record)).trans (agrees key record found untouched)
  · intro change member
    rw [logReplayed_append] at member
    rcases List.mem_append.mp member with earlier | new
    · exact copied.registered change earlier
    · rcases mem_logReplayed_emitKeys.mp new with ⟨key, record, _, _, rfl⟩
      exact known
  · rintro ⟨other, key⟩ registered through untouched cold shown
    rw [logReplayed_append]
    by_cases here : other = name
    · subst other
      rcases Option.isSome_iff_exists.mp (complete key untouched cold shown) with ⟨record, found⟩
      rw [← agrees key record found untouched] at shown
      have current : record.expired start = false := by
        by_contra past
        rw [visible_some, Record.expired_mono le (Bool.of_not_eq_false past)] at shown
        exact shown rfl
      exact ⟨record.normalized, List.mem_append_right _
        (mem_logReplayed_emitKeys.mpr ⟨key, record, found, current, rfl⟩)⟩
    · have before : other ∉ ((name, room) :: rest).map Prod.fst := by
        rw [List.map_cons, List.mem_cons]
        rintro (same | later)
        · exact here same
        · exact through later
      rcases copied.complete (other, key) registered before untouched cold shown with
        ⟨record, member⟩
      exact ⟨record, List.mem_append_left _ member⟩

/-- A room that was awake at the fork is written from memory. -/
theorem Copied.ram {name : Bytes} {room : Room} {rest : List (Bytes × Room)}
    {written : List AofRecord} {start : Nat}
    (copied : Copied fork now tail ((name, room) :: rest) written) (le : start ≤ now)
    (registered : (name, room) ∈ fork.rooms.toPairs) (awake : room.state = .active) :
    Copied fork now tail rest (written ++ emitKeys start name room.keys) := by
  have found := (FiniteMap.mem_toPairs _ _ _).mp registered
  have same : fork.room name = room := by
    rw [Db.room, found]
    rfl
  have resident : fork.resident name = room.keys := by
    rw [resident_eq, same, residentOf, awake]
  apply copied.emitted le (AList.lookup_isSome.mp (by rw [found]; rfl))
  · intro key record found _
    unfold held
    rw [resident, found, Option.some_or]
  · intro key _ cold shown
    unfold held at shown
    rw [resident, cold, Option.or_none] at shown
    cases found : room.keys.lookup key with
    | none =>
        rw [found] at shown
        exact absurd rfl shown
    | some record => rfl

/-- A room that was asleep at the fork is written from the file that is there
now. -/
theorem Copied.file {name : Bytes} {room : Room} {rest : List (Bytes × Room)}
    {written : List AofRecord} {start : Nat} {keys : FiniteMap Bytes Record}
    (copied : Copied fork now tail ((name, room) :: rest) written) (le : start ≤ now)
    (registered : (name, room) ∈ fork.rooms.toPairs) (files : FilesAgree fork now tail db)
    (read : ∀ key, keys.lookup key = snapshotHeld db.snapshots (name, key))
    (complete : ∀ key, Untouched tail (name, key) → fork.cold.find name key = none →
      visible now (fork.held (name, key)) ≠ none →
      (snapshotHeld db.snapshots (name, key)).isSome) :
    Copied fork now tail rest (written ++ emitKeys start name keys) := by
  have found := (FiniteMap.mem_toPairs _ _ _).mp registered
  apply copied.emitted le (AList.lookup_isSome.mp (by rw [found]; rfl))
  · intro key record found untouched
    rw [read] at found
    exact files (name, key) record untouched found
  · intro key untouched cold shown
    rw [read]
    exact complete key untouched cold shown

end Db

end SomniumDB
