import Mathlib.Data.List.Count
import Mathlib.Order.Lattice

/-! # Count-min sketches

Rows of saturating counters. A key has one counter in every row, which other keys may
share, and its estimate is the least of these counters. -/

namespace SomniumDB.CountMin

variable {κ : Type u} {ι : Type v} {γ : Type w} [DecidableEq γ]

/-- An access raises the counter of the key in each row, up to the cap. -/
def access (cellOf : ι → κ → γ) (cap : Nat) (counters : ι → γ → Nat) (key : κ) : ι → γ → Nat :=
  fun row cell =>
    if cellOf row key = cell then min (counters row cell + 1) cap else counters row cell

def estimate (cellOf : ι → κ → γ) (cap : Nat) (rows : List ι) (counters : ι → γ → Nat)
    (key : κ) : Nat :=
  rows.foldl (fun least row => min least (counters row (cellOf row key))) cap

variable {cellOf : ι → κ → γ} {cap : Nat}

/-- A counter is the number of accesses to the keys that share it. -/
theorem foldl_access (keys : List κ) (counters : ι → γ → Nat) (row : ι) (cell : γ)
    (bounded : counters row cell ≤ cap) :
    keys.foldl (access cellOf cap) counters row cell =
      min (counters row cell + keys.countP fun key => cellOf row key = cell) cap := by
  induction keys generalizing counters with
  | nil => simpa using bounded
  | cons key rest induction =>
      have here : access cellOf cap counters key row cell ≤ cap := by
        unfold access
        by_cases equal : cellOf row key = cell
        · rw [if_pos equal]
          exact min_le_right _ _
        · rw [if_neg equal]
          exact bounded
      rw [List.foldl_cons, induction _ here, List.countP_cons]
      unfold access
      by_cases shared : cellOf row key = cell
      · rw [if_pos shared, if_pos (decide_eq_true shared)]
        omega
      · rw [if_neg shared, if_neg (fun same => shared (of_decide_eq_true same))]
        rfl

theorem foldl_min_le (rows : List ι) (value : ι → Nat) (start : Nat) :
    rows.foldl (fun least row => min least (value row)) start ≤ start ∧
      ∀ row ∈ rows, rows.foldl (fun least row => min least (value row)) start ≤ value row := by
  induction rows generalizing start with
  | nil => exact ⟨Nat.le_refl _, fun row member => absurd member List.not_mem_nil⟩
  | cons first rest induction =>
      rcases induction (min start (value first)) with ⟨least, others⟩
      refine ⟨least.trans (min_le_left _ _), fun row member => ?_⟩
      rcases List.mem_cons.mp member with rfl | later
      · exact least.trans (min_le_right _ _)
      · exact others row later

theorem le_foldl_min {rows : List ι} {value : ι → Nat} {bound start : Nat} (first : bound ≤ start)
    (all : ∀ row ∈ rows, bound ≤ value row) :
    bound ≤ rows.foldl (fun least row => min least (value row)) start := by
  induction rows generalizing start with
  | nil => exact first
  | cons row rest induction =>
      refine induction (le_min first (all row List.mem_cons_self)) fun other member => ?_
      exact all other (List.mem_cons_of_mem row member)

/-- An estimate is never too low, except for saturation, and no more than what has been
counted at all. -/
theorem estimate_bounds [BEq κ] [LawfulBEq κ] {rows : List ι} (some : rows ≠ []) (keys : List κ)
    (key : κ) :
    min (keys.count key) cap ≤
        estimate cellOf cap rows (keys.foldl (access cellOf cap) fun _ _ => 0) key ∧
      estimate cellOf cap rows (keys.foldl (access cellOf cap) fun _ _ => 0) key ≤
        min keys.length cap := by
  have counter (row : ι) :
      keys.foldl (access cellOf cap) (fun _ _ => 0) row (cellOf row key) =
        min (keys.countP fun other => cellOf row other = cellOf row key) cap := by
    rw [foldl_access keys _ row _ (Nat.zero_le _), Nat.zero_add]
  rcases List.exists_mem_of_ne_nil rows some with ⟨row, member⟩
  rcases foldl_min_le rows (fun row =>
    keys.foldl (access cellOf cap) (fun _ _ => 0) row (cellOf row key)) cap with ⟨start, least⟩
  refine ⟨le_foldl_min (min_le_right _ _) fun other _ => ?_, le_min ?_ start⟩
  · rw [counter]
    refine le_min ((min_le_left _ _).trans ?_) (min_le_right _ _)
    refine List.countP_mono_left fun candidate _ same => ?_
    rw [beq_iff_eq] at same
    rw [same]
    exact decide_eq_true rfl
  · have here := least row member
    rw [counter] at here
    exact here.trans ((min_le_left _ _).trans List.countP_le_length)

end SomniumDB.CountMin
