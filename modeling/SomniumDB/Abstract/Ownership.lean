import SomniumDB.Properties.PoolMemory

/-! # Owners of pooled records

An owner holds a pointer to a record of the pool. When every record has exactly
one owner, a record that an owner gives up can be destroyed, and a write through
one pointer is seen through no other. -/

namespace SomniumDB

open Function

variable {α : Type u} {ι : Type v} {κ : Type w} {blockSize : Nat}

/-- Every record of the pool has one owner, and every owner a record. -/
structure Owns (blockSize : Nat) (pool : Pool α) (own : ι → Option Nat) : Prop where
  formed : ∃ free, pool.WellFormed blockSize free
  owned : ∀ pointer, (pool.value pointer).isSome ↔ ∃ owner, own owner = some pointer
  single : ∀ first second pointer, own first = some pointer → own second = some pointer →
    first = second

/-- What the owners hold. -/
def contents (pool : Pool α) (own : ι → Option Nat) (owner : ι) : Option α :=
  (own owner).bind pool.value

namespace Owns

variable {pool : Pool α} {own : ι → Option Nat}

theorem value_of_own (owns : Owns blockSize pool own) {owner : ι} {pointer : Nat}
    (holds : own owner = some pointer) : (pool.value pointer).isSome :=
  (owns.owned pointer).mpr ⟨owner, holds⟩

theorem contents_isSome (owns : Owns blockSize pool own) (owner : ι) :
    (contents pool own owner).isSome ↔ (own owner).isSome := by
  simp only [contents]
  cases holds : own owner with
  | none => simp
  | some pointer => simpa using owns.value_of_own holds

/-- A new record, for an owner without one. -/
theorem construct [DecidableEq ι] (positive : 0 < blockSize) (owns : Owns blockSize pool own) {owner : ι}
    (without : own owner = none) (value : α) :
    ∃ next pointer, pool.construct blockSize value = some (next, pointer) ∧
      Owns blockSize next (update own owner (some pointer)) ∧
      contents next (update own owner (some pointer)) =
        update (contents pool own) owner (some value) := by
  rcases owns.formed with ⟨free, wellFormed⟩
  rcases Pool.construct_spec positive wellFormed value with
    ⟨next, pointer, rest, constructed, formed, unused, held, _⟩
  have fresh : ∀ other, own other ≠ some pointer := by
    intro other holds
    have used := owns.value_of_own holds
    rw [unused] at used
    cases used
  refine ⟨next, pointer, constructed, ⟨⟨rest, formed⟩, ?_, ?_⟩, ?_⟩
  · intro address
    rw [held]
    by_cases here : address = pointer
    · rw [here, update_self]
      exact iff_of_true rfl ⟨owner, update_self _ _ _⟩
    · rw [update_of_ne here, owns.owned]
      constructor
      · intro holder
        rcases holder with ⟨other, holds⟩
        refine ⟨other, ?_⟩
        rw [update_of_ne]
        · exact holds
        · intro same
          rw [same, without] at holds
          cases holds
      · intro holder
        rcases holder with ⟨other, holds⟩
        by_cases same : other = owner
        · rw [same, update_self] at holds
          exact absurd (Option.some.inj holds).symm here
        · rw [update_of_ne same] at holds
          exact ⟨other, holds⟩
  · intro first second address left right
    by_cases one : first = owner
    · by_cases two : second = owner
      · rw [one, two]
      · rw [one, update_self] at left
        rw [update_of_ne two, ← left] at right
        exact absurd right (fresh second)
    · by_cases two : second = owner
      · rw [two, update_self] at right
        rw [update_of_ne one, ← right] at left
        exact absurd left (fresh first)
      · rw [update_of_ne one] at left
        rw [update_of_ne two] at right
        exact owns.single first second address left right
  · funext other
    simp only [contents, held]
    by_cases same : other = owner
    · rw [same, update_self, update_self, Option.bind_some, update_self]
    · rw [update_of_ne same, update_of_ne same]
      cases holds : own other with
      | none => simp [contents, holds]
      | some address =>
          simp only [Option.bind_some, contents, holds]
          rw [update_of_ne]
          intro equal
          exact fresh other (equal ▸ holds)

/-- The record of an owner is destroyed. -/
theorem destroy [DecidableEq ι] (owns : Owns blockSize pool own) {owner : ι} {pointer : Nat}
    (holds : own owner = some pointer) :
    ∃ next, pool.destroy pointer = some next ∧ Owns blockSize next (update own owner none) ∧
      contents next (update own owner none) = update (contents pool own) owner none := by
  rcases owns.formed with ⟨free, wellFormed⟩
  rcases Pool.destroy_spec wellFormed (owns.value_of_own holds) with
    ⟨next, destroyed, formed, held, _⟩
  have others : ∀ other, other ≠ owner → own other ≠ some pointer := by
    intro other different same
    exact different (owns.single other owner pointer same holds)
  refine ⟨next, destroyed, ⟨⟨_, formed⟩, ?_, ?_⟩, ?_⟩
  · intro address
    rw [held]
    by_cases here : address = pointer
    · rw [here, update_self]
      refine iff_of_false (by simp) ?_
      intro holder
      rcases holder with ⟨other, found⟩
      by_cases same : other = owner
      · rw [same, update_self] at found
        cases found
      · rw [update_of_ne same] at found
        exact others other same found
    · rw [update_of_ne here, owns.owned]
      constructor
      · intro holder
        rcases holder with ⟨other, found⟩
        refine ⟨other, ?_⟩
        rw [update_of_ne]
        · exact found
        · intro same
          rw [same, holds] at found
          exact here (Option.some.inj found).symm
      · intro holder
        rcases holder with ⟨other, found⟩
        by_cases same : other = owner
        · rw [same, update_self] at found
          cases found
        · rw [update_of_ne same] at found
          exact ⟨other, found⟩
  · intro first second address left right
    by_cases one : first = owner
    · rw [one, update_self] at left
      cases left
    · by_cases two : second = owner
      · rw [two, update_self] at right
        cases right
      · rw [update_of_ne one] at left
        rw [update_of_ne two] at right
        exact owns.single first second address left right
  · funext other
    simp only [contents, held]
    by_cases same : other = owner
    · rw [same, update_self, update_self]
      rfl
    · rw [update_of_ne same, update_of_ne same]
      cases found : own other with
      | none => simp [contents, found]
      | some address =>
          simp only [Option.bind_some, contents, found]
          rw [update_of_ne]
          intro equal
          exact others other same (equal ▸ found)

/-- The record of an owner is changed through its pointer. -/
theorem write [DecidableEq ι] (owns : Owns blockSize pool own) {owner : ι} {pointer : Nat}
    (holds : own owner = some pointer) (value : α) :
    ∃ next, pool.write pointer value = some next ∧ Owns blockSize next own ∧
      contents next own = update (contents pool own) owner (some value) := by
  rcases owns.formed with ⟨free, wellFormed⟩
  have used := owns.value_of_own holds
  rcases Pool.write_spec wellFormed used value with ⟨next, written, formed, held, _⟩
  refine ⟨next, written, ⟨⟨free, formed⟩, ?_, owns.single⟩, ?_⟩
  · intro address
    rw [held, ← owns.owned]
    by_cases here : address = pointer
    · rw [here, update_self]
      exact iff_of_true rfl used
    · rw [update_of_ne here]
  · funext other
    simp only [contents, held]
    by_cases same : other = owner
    · rw [same, holds, update_self, Option.bind_some, update_self]
    · rw [update_of_ne same]
      cases found : own other with
      | none => simp [contents, found]
      | some address =>
          simp only [Option.bind_some, contents, found]
          rw [update_of_ne]
          intro equal
          rw [equal] at found
          exact same (owns.single other owner pointer found holds)

/-- The same pointers in other hands. -/
theorem handOver {other : κ → Option Nat} (owns : Owns blockSize pool own)
    (same : ∀ pointer, (∃ owner, other owner = some pointer) ↔ ∃ owner, own owner = some pointer)
    (single : ∀ first second pointer, other first = some pointer → other second = some pointer →
      first = second) : Owns blockSize pool other := by
  constructor
  · exact owns.formed
  · intro pointer
    rw [owns.owned, same]
  · exact single

/-- A new record takes the place of the old one, which is destroyed afterwards. -/
theorem replace [DecidableEq ι] (positive : 0 < blockSize) (owns : Owns blockSize pool own)
    {owner : ι} {old : Nat} (holds : own owner = some old) (value : α) :
    ∃ between pointer next, pool.construct blockSize value = some (between, pointer) ∧
      between.destroy old = some next ∧ Owns blockSize next (update own owner (some pointer)) ∧
      contents next (update own owner (some pointer)) =
        update (contents pool own) owner (some value) := by
  -- while both records exist, the new one has an owner of its own
  have wide : Owns blockSize pool (fun owner : Option ι => owner.bind own) := by
    apply owns.handOver
    · intro pointer
      constructor
      · intro holder
        rcases holder with ⟨other, found⟩
        cases other with
        | none => cases found
        | some other => exact ⟨other, found⟩
      · intro holder
        rcases holder with ⟨other, found⟩
        exact ⟨some other, found⟩
    · intro first second pointer left right
      cases first with
      | none => cases left
      | some first =>
          cases second with
          | none => cases right
          | some second => rw [owns.single first second pointer left right]
  have without : (fun owner : Option ι => owner.bind own) none = none := rfl
  rcases wide.construct positive without value with
    ⟨between, pointer, constructed, doubled, held⟩
  have kept : update (fun owner : Option ι => owner.bind own) none (some pointer) (some owner) =
      some old := by
    rw [update_of_ne (Option.some_ne_none owner)]
    exact holds
  rcases doubled.destroy kept with ⟨next, destroyed, single, left⟩
  have moved : ∀ other, update own owner (some pointer) other =
      update (update (fun owner : Option ι => owner.bind own) none (some pointer)) (some owner) none
        (if other = owner then none else some other) := by
    intro other
    by_cases same : other = owner
    · rw [if_pos same, same, update_self, update_of_ne (Option.some_ne_none owner).symm,
        update_self]
    · have different : some other ≠ some owner := fun equal => same (Option.some.inj equal)
      rw [if_neg same, update_of_ne same, update_of_ne different,
        update_of_ne (Option.some_ne_none other)]
      rfl
  refine ⟨between, pointer, next, constructed, destroyed, ?_, ?_⟩
  · apply single.handOver
    · intro address
      constructor
      · intro holder
        rcases holder with ⟨other, found⟩
        rw [moved other] at found
        exact ⟨_, found⟩
      · intro holder
        rcases holder with ⟨other, found⟩
        cases other with
        | none =>
            refine ⟨owner, ?_⟩
            rw [moved owner, if_pos rfl]
            exact found
        | some other =>
            by_cases same : other = owner
            · rw [same, update_self] at found
              cases found
            · refine ⟨other, ?_⟩
              rw [moved other, if_neg same]
              exact found
    · intro first second address one two
      rw [moved first] at one
      rw [moved second] at two
      have equal := single.single _ _ address one two
      by_cases firstSame : first = owner
      · by_cases secondSame : second = owner
        · rw [firstSame, secondSame]
        · simp [firstSame, secondSame] at equal
      · by_cases secondSame : second = owner
        · simp [firstSame, secondSame] at equal
        · simpa [firstSame, secondSame] using equal
  · funext other
    have inner : contents next (update own owner (some pointer)) other =
        contents next (update (update (fun owner : Option ι => owner.bind own) none
          (some pointer)) (some owner) none) (if other = owner then none else some other) := by
      simp only [contents]
      rw [moved other]
    rw [inner, left, held]
    by_cases same : other = owner
    · rw [if_pos same, same, update_of_ne (Option.some_ne_none owner).symm, update_self,
        update_self]
    · have different : some other ≠ some owner := fun equal => same (Option.some.inj equal)
      rw [if_neg same, update_of_ne different, update_of_ne (Option.some_ne_none other),
        update_of_ne same]
      rfl

end Owns

end SomniumDB
