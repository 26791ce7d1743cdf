import SomniumDB.Abstract.Offer

/-! # One place of a node

What a node has under one place, and what an offered change makes of it. Changes
of other places leave it alone. -/

namespace SomniumDB

/-- What a node has under one place. -/
@[ext] structure Cell where
  held : Option Record
  tomb : Option Version

namespace Cell

/-- The record that a reader finds: an expired one is dropped. -/
def seen (now : Nat) (cell : Cell) : Option Record :=
  cell.held.filter fun record => !record.expired now

/-- A version loses against the record found, else against the tombstone, else
against the watermark. -/
def stale (watermark now : Nat) (cell : Cell) (version : Version) : Bool :=
  match cell.seen now with
  | some record => decide (version ≤ record.version)
  | none =>
      match cell.tomb with
      | some tomb => decide (version ≤ tomb)
      | none => decide (version.ts ≤ watermark)

/-- A change offered to the cell. -/
def offer (config : Config) (watermark now : Nat) (cell : Cell) (change : Change) : Cell :=
  if cell.stale watermark now change.version then { cell with held := cell.seen now }
  else
    match change with
    | .put _ record =>
        { held := some record
          tomb := if (cell.seen now).isNone then none else cell.tomb }
    | .del _ version =>
        { held := none, tomb := Node.marked config watermark cell.tomb version }

/-- The cell of a place that takes merges only, the newest of which is `newest`.
Once that one has been offered (`done`) the cell has it, or it has expired and
nothing is left that can be seen at `time`. -/
structure Tracks (watermark time now : Nat) (newest : Record) (done : Prop) (cell : Cell) :
    Prop where
  tomb : cell.tomb = none
  low : newest.timestampMs ≤ watermark → cell.held = none
  early : ¬ done → ∀ record, cell.held = some record → record.version < newest.version
  late : done → watermark < newest.timestampMs → cell.held = some newest ∨
    newest.expired now = true ∧
      ∀ record, cell.held = some record → record.expired time = true

section Tracks

variable {watermark time now : Nat} {newest : Record} {done : Prop} {cell : Cell}

theorem Tracks.later {later : Nat} (tracks : cell.Tracks watermark time now newest done)
    (le : now ≤ later) : cell.Tracks watermark time later newest done := by
  refine ⟨tracks.tomb, tracks.low, tracks.early, ?_⟩
  intro offered above
  rcases tracks.late offered above with has | ⟨past, gone⟩
  · exact .inl has
  · exact .inr ⟨Record.expired_mono le past, gone⟩

theorem Tracks.dropped {held : Option Record}
    (tracks : cell.Tracks watermark time now newest done)
    (drops : Node.Drops now cell.held held) :
    ({ cell with held } : Cell).Tracks watermark time now newest done := by
  rcases drops with rfl | ⟨rfl, record, found, past⟩
  · exact tracks
  · refine ⟨tracks.tomb, fun _ => rfl, by rintro _ _ ⟨⟩, ?_⟩
    intro offered above
    refine .inr ⟨?_, by rintro _ ⟨⟩⟩
    rcases tracks.late offered above with has | ⟨expired, _⟩
    · rw [found] at has
      exact Option.some.inj has ▸ past
    · exact expired

theorem Tracks.stale_iff (tracks : cell.Tracks watermark time now newest done)
    (version : Version) :
    cell.stale watermark now version = true ↔
      match cell.seen now with
      | some record => version ≤ record.version
      | none => version.ts ≤ watermark := by
  unfold stale
  rw [tracks.tomb]
  cases cell.seen now <;> exact decide_eq_true_iff

/-- The newest merge is taken. -/
theorem Tracks.offered_newest (config : Config) (place : Place)
    (tracks : cell.Tracks watermark time now newest done) (first : ¬ done) :
    (cell.offer config watermark now (.put place newest)).Tracks watermark time now newest
      True := by
  have seen := tracks.dropped (Node.drops_filter now cell.held)
  unfold offer
  by_cases stale : stale watermark now cell (Change.put place newest).version = true
  · rw [if_pos stale]
    have refused := (tracks.stale_iff newest.version).mp stale
    split at refused
    · rename_i record found
      have below := seen.early first record found
      exact absurd refused (not_le.mpr below)
    · exact ⟨tracks.tomb, seen.low, fun never => absurd trivial never,
        fun _ above => absurd refused (Nat.not_le.mpr above)⟩
  · rw [if_neg stale]
    refine ⟨?_, ?_, fun never => absurd trivial never, fun _ _ => .inl rfl⟩
    · simp only [tracks.tomb, ite_self]
    · intro low
      have empty : cell.seen now = none := seen.low low
      refine absurd ((tracks.stale_iff newest.version).mpr ?_) stale
      rw [empty]
      exact low

/-- An older merge that is taken after the newest one must have expired at
`time`. -/
theorem Tracks.offered_older (config : Config) (place : Place) {record : Record}
    (tracks : cell.Tracks watermark time now newest done)
    (older : record.version < newest.version)
    (timely : done → cell.stale watermark now record.version = false →
      record.expired time = true) :
    (cell.offer config watermark now (.put place record)).Tracks watermark time now newest
      done := by
  have seen := tracks.dropped (Node.drops_filter now cell.held)
  unfold offer
  by_cases losing : stale watermark now cell (Change.put place record).version = true
  · rw [if_pos losing]
    exact seen
  · rw [if_neg losing]
    have admitted : cell.stale watermark now record.version = false :=
      Bool.eq_false_iff.mpr losing
    refine ⟨?_, ?_, ?_, ?_⟩
    · simp only [tracks.tomb, ite_self]
    · intro low
      have empty : cell.seen now = none := seen.low low
      refine absurd ((tracks.stale_iff record.version).mpr ?_) losing
      rw [empty]
      exact (Version.ts_le_of_le older.le).trans low
    · rintro _ other ⟨⟩
      exact older
    · intro offered above
      have gone : ∀ other, some record = some other → other.expired time = true := by
        rintro other ⟨⟩
        exact timely offered admitted
      refine .inr ⟨?_, gone⟩
      rcases tracks.late offered above with has | ⟨past, _⟩
      · by_contra current
        have found : cell.seen now = some newest := by
          simp [Cell.seen, has, Option.filter_some, current]
        refine absurd ((tracks.stale_iff record.version).mpr ?_) losing
        rw [found]
        exact older.le
      · exact past

/-- What is seen in the end depends on the newest merge only. -/
theorem Tracks.visible (tracks : cell.Tracks watermark time now newest done)
    (settled : done ∨ newest.timestampMs ≤ watermark) (le : now ≤ time) :
    SomniumDB.visible time cell.held =
      if newest.timestampMs ≤ watermark then none else SomniumDB.visible time (some newest) := by
  by_cases low : newest.timestampMs ≤ watermark
  · rw [if_pos low]
    rw [tracks.low low, visible_none]
  · rw [if_neg low]
    rcases tracks.late (settled.resolve_right low) (Nat.not_le.mp low) with has | ⟨past, gone⟩
    · rw [has]
    · rw [visible_some, Record.expired_mono le past, if_pos rfl]
      cases found : cell.held with
      | none => rfl
      | some record => rw [visible_some, gone record found, if_pos rfl]

end Tracks

end Cell

namespace Node

/-- What the node has under a place. -/
def cell (node : Node) (place : Place) : Cell :=
  ⟨node.held place, node.tomb place⟩

/-- A write to an absent place clears its tombstone. -/
theorem apply_put_tomb (config : Config) (node : Node) (place : Place) (record : Record) :
    (node.apply config (.put place record)).tomb place =
      if (node.held place).isNone then none else node.tomb place := by
  simp only [apply, hold_tomb]
  by_cases absent : (node.held place).isNone = true
  · simp only [if_pos absent]
    rw [bury_tomb, if_pos rfl]
  · simp only [if_neg absent]

/-- An offer changes the cell of its place only. -/
theorem cell_offer (config : Config) (now : Nat) (node : Node) {record : AofRecord}
    {change : Change} (single : record.changes = [change]) (place : Place) :
    (node.offer config now record change).cell place =
      if place = change.place then
        (node.cell place).offer config node.watermark now change
      else node.cell place := by
  by_cases here : place = change.place
  · subst here
    have touched : ((node.observe change.version.ts).touch now change.place).held change.place =
        (node.cell change.place).seen now := by
      rw [touch, hold_held, if_pos rfl]
      rfl
    have stale : ((node.observe change.version.ts).touch now change.place).stale change.place
        change.version = (node.cell change.place).stale node.watermark now change.version := by
      unfold Node.stale Cell.stale
      rw [touched]
      rfl
    rw [if_pos rfl, offer_eq, stale]
    unfold Cell.offer
    by_cases older : Cell.stale node.watermark now (node.cell change.place) change.version = true
    · simp only [if_pos older]
      exact Cell.ext touched rfl
    · simp only [if_neg older]
      cases change with
      | put target content =>
          apply Cell.ext
          · simp only [cell, commit, applyAll_single single]
            exact (apply_held _ _ _ _).trans (if_pos rfl)
          · simp only [cell, commit, applyAll_single single]
            refine (apply_put_tomb config _ target content).trans ?_
            have found : ((node.observe (Change.put target content).version.ts).touch now
                target).held target = (node.cell target).seen now := touched
            rw [Change.place, found]
            rfl
      | del target version =>
          apply Cell.ext
          · simp only [cell, commit, applyAll_single single]
            exact (apply_held _ _ _ _).trans (if_pos rfl)
          · simp only [cell, commit, applyAll_single single, apply, mark, bury_tomb, Change.place,
              if_true]
            rfl
  · rw [if_neg here]
    rcases offer_elsewhere config now node single here with ⟨held, tomb⟩
    exact Cell.ext held tomb

theorem Drops.trans {now : Nat} {first second third : Option Record} (left : Drops now first second)
    (right : Drops now second third) : Drops now first third := by
  rcases right with rfl | ⟨rfl, record, found, past⟩
  · exact left
  · rcases left with rfl | ⟨rfl, _⟩
    · exact .inr ⟨rfl, record, found, past⟩
    · cases found

/-- Readers and the watchdog leave tombstones and the watermark alone. -/
theorem drops_shed {config : Config} {now : Nat} {node after : Node}
    (shed : Relation.ReflTransGen (Shed config now) node after) (place : Place) :
    Drops now (node.held place) (after.held place) ∧ after.tomb place = node.tomb place ∧
      after.watermark = node.watermark := by
  induction shed with
  | refl => exact ⟨.inl rfl, rfl, rfl⟩
  | tail _ step induction =>
      rcases induction with ⟨before, tomb, watermark⟩
      cases step with
      | drop held drops => exact ⟨before.trans (drops place), tomb, watermark⟩

end Node

end SomniumDB
