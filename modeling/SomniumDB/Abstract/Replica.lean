import SomniumDB.Library.LastWriter
import SomniumDB.Abstract.Cell

/-! # One place of a replica

A node knows some changes of a place: those it has made itself and those that other
nodes have offered to it. The place reflects them when it shows the newest one. A
tombstone may be forgotten once no change at or below the watermark can still arrive. -/

namespace SomniumDB

open LastWriter

/-- The change is the newest one of its place. -/
abbrev Change.Newest (known : Set Change) (change : Change) : Prop :=
  Latest Change.place Change.version known change

namespace Cell

/-- The cell after a change of its place. -/
def written (config : Config) (watermark : Nat) (cell : Cell) : Change → Cell
  | .put _ record =>
      { held := some record
        tomb := if cell.held.isNone then none else cell.tomb }
  | .del _ version =>
      { held := none, tomb := Node.marked config watermark cell.tomb version }

/-- The cell shows the newest of the changes known. An empty cell without a tombstone
has forgotten a delete, or has never seen a change. -/
structure Reflects (watermark : Nat) (known : Set Change) (place : Place) (cell : Cell) :
    Prop where
  held : ∀ record, cell.held = some record →
    cell.tomb = none ∧ Change.Newest known (.put place record)
  tomb : ∀ version, cell.tomb = some version →
    watermark < version.ts ∧ Change.Newest known (.del place version)
  gone : cell.held = none → cell.tomb = none → ∀ change ∈ known, change.place = place →
    change.version.ts ≤ watermark ∧ (change.Newest known → change.result = none)

variable {config : Config} {watermark now : Nat} {known : Set Change} {place : Place}
  {cell : Cell} {change : Change}

theorem Reflects.empty (untouched : ∀ change ∈ known, change.place ≠ place) :
    Reflects watermark known place { held := none, tomb := none } := by
  constructor
  · intro record absurd
    cases absurd
  · intro version absurd
    cases absurd
  · intro _ _ change member here
    exact absurd here (untouched change member)

/-- What the cell holds is what its newest change has left. -/
theorem Reflects.result (reflects : cell.Reflects watermark known place)
    (distinct : Distinct Change.place Change.version known) (newest : change.Newest known)
    (here : change.place = place) : cell.held = change.result := by
  cases held : cell.held with
  | some record =>
      have same := newest.unique distinct (reflects.held record held).2 here
      rw [same]
      rfl
  | none =>
      cases tomb : cell.tomb with
      | some version =>
          have same := newest.unique distinct (reflects.tomb version tomb).2 here
          rw [same]
          rfl
      | none => exact ((reflects.gone held tomb change newest.member here).2 newest).symm

/-- A cell whose place has no change holds nothing. -/
theorem Reflects.untouched (reflects : cell.Reflects watermark known place)
    (untouched : ∀ change ∈ known, change.place ≠ place) : cell.held = none := by
  cases held : cell.held with
  | none => rfl
  | some record => exact absurd rfl (untouched _ (reflects.held record held).2.member)

/-- Only the changes of the place matter. -/
theorem Reflects.congr {others : Set Change} (reflects : cell.Reflects watermark known place)
    (same : ∀ change, change.place = place → (change ∈ others ↔ change ∈ known)) :
    cell.Reflects watermark others place := by
  constructor
  · intro record held
    constructor
    · exact (reflects.held record held).1
    · exact (reflects.held record held).2.congr same
  · intro version tomb
    constructor
    · exact (reflects.tomb version tomb).1
    · exact (reflects.tomb version tomb).2.congr same
  · intro held tomb change member here
    have earlier := reflects.gone held tomb change ((same change here).mp member) here
    constructor
    · exact earlier.1
    · intro newest
      apply earlier.2
      apply newest.congr
      intro other there
      exact (same other (there.trans here)).symm

/-- A change above all that is known of the place is taken. -/
theorem Reflects.written (reflects : cell.Reflects watermark known place)
    (peers : config.peerCount ≠ 0) (here : change.place = place)
    (above : ∀ other ∈ known, other.place = place → other.version < change.version) :
    (cell.written config watermark change).Reflects watermark (insert change known) place := by
  have newest : change.Newest (insert change known) := by
    apply Latest.above
    intro other member same
    exact (above other member (same.trans here)).le
  cases change with
  | put target record =>
      change target = place at here
      subst target
      have bare : (cell.written config watermark (.put place record)).tomb = none := by
        change (if cell.held.isNone then none else cell.tomb) = none
        cases held : cell.held with
        | none => rfl
        | some old => exact (reflects.held old held).1
      constructor
      · intro other held
        cases held
        exact ⟨bare, newest⟩
      · intro version tomb
        cases bare.symm.trans tomb
      · intro absurd
        cases absurd
  | del target version =>
      change target = place at here
      subst target
      have older : ∀ old, cell.tomb = some old → watermark < old.ts ∧ old < version := by
        intro old tomb
        have buried := reflects.tomb old tomb
        exact ⟨buried.1, above _ buried.2.member rfl⟩
      by_cases low : version.ts ≤ watermark
      · have bare : cell.tomb = none := by
          cases tomb : cell.tomb with
          | none => rfl
          | some old =>
              have between := older old tomb
              have order := Version.ts_le_of_le between.2.le
              omega
        have left : (cell.written config watermark (.del place version)).tomb = none := by
          change Node.marked config watermark cell.tomb version = none
          rw [Node.marked, if_pos (.inr low), bare]
        constructor
        · intro record absurd
          cases absurd
        · intro other tomb
          cases left.symm.trans tomb
        · intro _ _ other member there
          rcases Set.mem_insert_iff.mp member with equal | earlier
          · subst other
            exact ⟨low, fun _ => rfl⟩
          · have below := above other earlier there
            constructor
            · exact (Version.ts_le_of_le below.le).trans low
            · intro latest
              have reached := latest.newest _ (Set.mem_insert _ _) there.symm
              exact absurd below (not_lt.mpr reached)
      · have left : (cell.written config watermark (.del place version)).tomb =
            some version := by
          change Node.marked config watermark cell.tomb version = some version
          rw [Node.marked, if_neg (not_or.mpr ⟨peers, low⟩)]
          cases tomb : cell.tomb with
          | none => rfl
          | some old =>
              change some (max old version) = some version
              rw [max_eq_right (older old tomb).2.le]
        constructor
        · intro record absurd
          cases absurd
        · intro other tomb
          cases left.symm.trans tomb
          exact ⟨Nat.not_le.mp low, newest⟩
        · intro _ tomb
          cases left.symm.trans tomb

/-- A change that is not newer than what the cell shows, or is known already. -/
theorem Reflects.older (reflects : cell.Reflects watermark known place)
    (held : ∀ record, cell.held = some record → change.version ≤ record.version)
    (tomb : ∀ version, cell.tomb = some version → change.version ≤ version)
    (again : cell.held = none → cell.tomb = none → change ∈ known) :
    cell.Reflects watermark (insert change known) place := by
  constructor
  · intro record found
    constructor
    · exact (reflects.held record found).1
    · exact (reflects.held record found).2.older fun _ => held record found
  · intro version found
    constructor
    · exact (reflects.tomb version found).1
    · exact (reflects.tomb version found).2.older fun _ => tomb version found
  · intro empty bare
    rw [Set.insert_eq_of_mem (again empty bare)]
    exact reflects.gone empty bare

theorem stale_of_held {record : Record} {version : Version}
    (seen : cell.seen now = some record) :
    cell.stale watermark now version = decide (version ≤ record.version) := by
  unfold Cell.stale
  rw [seen]

theorem stale_of_tomb {buried version : Version} (seen : cell.seen now = none)
    (tomb : cell.tomb = some buried) :
    cell.stale watermark now version = decide (version ≤ buried) := by
  unfold Cell.stale
  rw [seen, tomb]

theorem stale_of_gone {version : Version} (seen : cell.seen now = none)
    (tomb : cell.tomb = none) :
    cell.stale watermark now version = decide (version.ts ≤ watermark) := by
  unfold Cell.stale
  rw [seen, tomb]

/-- A change is offered, and nothing that the cell holds has expired. A change at or
below the watermark is known already. -/
theorem Reflects.offered (reflects : cell.Reflects watermark known place)
    (peers : config.peerCount ≠ 0) (here : change.place = place)
    (current : cell.seen now = cell.held)
    (exact : change.version.ts ≤ watermark → change ∈ known) :
    (cell.offer config watermark now change).Reflects watermark (insert change known)
      place := by
  by_cases refused : cell.stale watermark now change.version = true
  · have same : cell.offer config watermark now change = cell := by
      unfold Cell.offer
      rw [if_pos refused, current]
    rw [same]
    apply reflects.older
    · intro record held
      rw [stale_of_held (current.trans held)] at refused
      exact of_decide_eq_true refused
    · intro version tomb
      cases held : cell.held with
      | some record =>
          cases (reflects.held record held).1.symm.trans tomb
      | none =>
          rw [stale_of_tomb (current.trans held) tomb] at refused
          exact of_decide_eq_true refused
    · intro held tomb
      rw [stale_of_gone (current.trans held) tomb] at refused
      exact exact (of_decide_eq_true refused)
  · have same : cell.offer config watermark now change =
        cell.written config watermark change := by
      unfold Cell.offer
      rw [if_neg refused]
      cases change with
      | put target record =>
          change Cell.mk _ (if (cell.seen now).isNone then none else cell.tomb) = _
          rw [current]
          rfl
      | del target version => rfl
    rw [same]
    apply reflects.written peers here
    intro other member there
    cases held : cell.held with
    | some record =>
        rw [stale_of_held (current.trans held), decide_eq_true_iff] at refused
        have below := (reflects.held record held).2.newest other member there
        exact below.trans_lt (not_le.mp refused)
    | none =>
        cases tomb : cell.tomb with
        | some version =>
            rw [stale_of_tomb (current.trans held) tomb, decide_eq_true_iff] at refused
            have below := (reflects.tomb version tomb).2.newest other member there
            exact below.trans_lt (not_le.mp refused)
        | none =>
            rw [stale_of_gone (current.trans held) tomb, decide_eq_true_iff] at refused
            have below := (reflects.gone held tomb other member there).1
            exact Version.lt_of_ts_lt (below.trans_lt (Nat.not_le.mp refused))

/-- The tombstones at or below a higher watermark are forgotten. -/
theorem Reflects.collected {low : Nat} (reflects : cell.Reflects watermark known place)
    (distinct : Distinct Change.place Change.version known) (rises : watermark ≤ low) :
    Reflects low known place
      { cell with tomb := cell.tomb.filter fun version => decide (low < version.ts) } := by
  constructor
  · intro record held
    have shown := reflects.held record held
    constructor
    · change Option.filter _ cell.tomb = none
      rw [shown.1]
      rfl
    · exact shown.2
  · intro version tomb
    rcases Option.filter_eq_some_iff.mp tomb with ⟨buried, above⟩
    exact ⟨of_decide_eq_true above, (reflects.tomb version buried).2⟩
  · intro held bare change member here
    change Option.filter _ cell.tomb = none at bare
    cases tomb : cell.tomb with
    | none =>
        have earlier := reflects.gone held tomb change member here
        exact ⟨earlier.1.trans rises, earlier.2⟩
    | some version =>
        have newest := (reflects.tomb version tomb).2
        have below : version.ts ≤ low := by
          rw [tomb, Option.filter_some] at bare
          by_contra above
          rw [if_pos (decide_eq_true (Nat.not_le.mp above))] at bare
          cases bare
        constructor
        · exact (Version.ts_le_of_le (newest.newest change member here)).trans below
        · intro latest
          rw [latest.unique distinct newest here]
          rfl

end Cell

namespace Node

variable {config : Config} {node : Node} {changes : List Change} {place : Place}

theorem cell_apply (config : Config) (node : Node) (change : Change) (place : Place) :
    (node.apply config change).cell place =
      if place = change.place then (node.cell place).written config node.watermark change
      else node.cell place := by
  by_cases here : place = change.place
  · rw [if_pos here]
    subst place
    cases change with
    | put target record =>
        apply Cell.ext
        · exact (apply_held config node (.put target record) target).trans (if_pos rfl)
        · exact apply_put_tomb config node target record
    | del target version =>
        apply Cell.ext
        · exact (apply_held config node (.del target version) target).trans (if_pos rfl)
        · simp only [cell, apply, mark, bury_tomb, Change.place, if_true]
          rfl
  · rw [if_neg here]
    apply Cell.ext
    · exact (apply_held _ _ _ _).trans (if_neg here)
    · exact apply_tomb_of_ne config node here

/-- Changes of different places are taken side by side. -/
theorem cell_applyAll (nodup : (changes.map Change.place).Nodup) :
    (∀ change ∈ changes, (node.applyAll config changes).cell change.place =
        (node.cell change.place).written config node.watermark change) ∧
      ∀ place, place ∉ changes.map Change.place →
        (node.applyAll config changes).cell place = node.cell place := by
  induction changes generalizing node with
  | nil =>
      constructor
      · intro change member
        cases member
      · intro place _
        rfl
  | cons head tail induction =>
      rw [List.map_cons, List.nodup_cons] at nodup
      have later := @induction (node.apply config head) nodup.2
      have unfolded : node.applyAll config (head :: tail) =
          (node.apply config head).applyAll config tail := rfl
      rw [unfolded]
      constructor
      · intro change member
        rcases List.mem_cons.mp member with equal | inTail
        · subst change
          rw [later.2 head.place nodup.1, cell_apply, if_pos rfl]
        · have different : change.place ≠ head.place := by
            intro same
            apply nodup.1
            rw [← same]
            exact List.mem_map_of_mem inTail
          rw [later.1 change inTail, cell_apply, if_neg different, apply_watermark]
      · intro place absent
        rw [List.map_cons, List.mem_cons, not_or] at absent
        rw [later.2 place absent.2, cell_apply, if_neg absent.1]

end Node

end SomniumDB
