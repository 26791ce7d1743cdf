import Mathlib.Data.List.Induction
import Mathlib.Data.Option.Basic

/-! # Folds of point updates

A state observed at points, and changes each of which fixes the observation at
one point. After any sequence of changes a point shows what the last change of
that point left there. -/

namespace SomniumDB.LastUpdate

variable {σ : Type u} {κ : Type v} {ν : Type w} {χ : Type x} [DecidableEq κ]

/-- The last change of a point. -/
def last (point : χ → κ) (changes : List χ) (key : κ) : Option χ :=
  changes.reverse.find? fun change => point change = key

variable {point : χ → κ}

theorem last_append (front back : List χ) (key : κ) :
    last point (front ++ back) key = (last point back key).or (last point front key) := by
  simp only [last, List.reverse_append, List.find?_append]

theorem last_concat (changes : List χ) (change : χ) (key : κ) :
    last point (changes ++ [change]) key =
      if point change = key then some change else last point changes key := by
  rw [last_append]
  by_cases here : point change = key <;> simp [last, here]

theorem last_eq_some {changes : List χ} {key : κ} {change : χ}
    (found : last point changes key = some change) :
    change ∈ changes ∧ point change = key := by
  refine ⟨List.mem_reverse.mp (List.mem_of_find?_eq_some found), ?_⟩
  simpa using List.find?_some found

theorem last_eq_none_iff {changes : List χ} {key : κ} :
    last point changes key = none ↔ ∀ change ∈ changes, point change ≠ key := by
  simp [last, List.find?_eq_none]

theorem last_isSome {changes : List χ} {key : κ} {change : χ} (member : change ∈ changes)
    (here : point change = key) : ∃ final, last point changes key = some final := by
  cases found : last point changes key with
  | some final => exact ⟨final, rfl⟩
  | none => exact absurd here (last_eq_none_iff.mp found change member)

/-- A point with one change only, however often it is made. -/
theorem last_eq_of_mem {changes : List χ} {key : κ} {change : χ} (member : change ∈ changes)
    (here : point change = key)
    (only : ∀ other ∈ changes, point other = key → other = change) :
    last point changes key = some change := by
  rcases last_isSome member here with ⟨final, found⟩
  rcases last_eq_some found with ⟨inChanges, atKey⟩
  rw [found, only final inChanges atKey]

/-- Changes that are transformed at their points. -/
theorem last_map {transform : χ → χ} (still : ∀ change, point (transform change) = point change)
    (changes : List χ) (key : κ) :
    last point (changes.map transform) key = (last point changes key).map transform := by
  simp only [last, ← List.map_reverse, List.find?_map, Function.comp_def, still]

/-- The fold of the changes shows at each point what its last change left. -/
theorem foldl_get {get : σ → κ → ν} {apply : σ → χ → σ} {value : χ → ν}
    (law : ∀ state change key, get (apply state change) key =
      if key = point change then value change else get state key)
    (state : σ) (changes : List χ) (key : κ) :
    get (changes.foldl apply state) key =
      ((last point changes key).map value).getD (get state key) := by
  induction changes using List.reverseRecOn with
  | nil => rfl
  | append_singleton front change induction =>
      rw [List.foldl_append, List.foldl_cons, List.foldl_nil, law, last_concat]
      by_cases here : key = point change
      · rw [if_pos here, if_pos here.symm]
        rfl
      · rw [if_neg here, if_neg (Ne.symm here), induction]

end SomniumDB.LastUpdate
