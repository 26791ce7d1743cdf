import SomniumDB.Storage.CountMinSketch

/-! # The frequency estimate

The table of the source is a count-min sketch with counters that stop at their largest
value, so that the estimate of a key lies between its own accesses and all accesses. -/

namespace SomniumDB.CountMinSketch

open Bytes

variable {sketch : CountMinSketch} {key : Bytes}

/-- The counters as numbers. -/
def counts (sketch : CountMinSketch) (row : Fin depth) (index : Fin width) : Nat :=
  (sketch.counter row index).toNat

def largest : Nat := 0xFFFF

theorem counts_le (sketch : CountMinSketch) (row : Fin depth) (index : Fin width) :
    sketch.counts row index ≤ largest :=
  Nat.le_of_lt_succ (sketch.counter row index).toNat_lt

theorem counter_set_self (sketch : CountMinSketch) (row : Fin depth) (place : Fin width)
    (count : UInt16) :
    ({ table := sketch.table.set row
          ((getElem sketch.table row.val row.isLt).set place count place.isLt) row.isLt } :
        CountMinSketch).counter row place = count := by
  unfold counter
  simp only [Vector.getElem_set_self]

theorem counter_set_of_ne (sketch : CountMinSketch) {row other : Fin depth}
    {place index : Fin width} (count : UInt16) (apart : ¬(other = row ∧ index = place)) :
    ({ table := sketch.table.set row
          ((getElem sketch.table row.val row.isLt).set place count place.isLt) row.isLt } :
        CountMinSketch).counter other index = sketch.counter other index := by
  unfold counter
  by_cases sameRow : other = row
  · subst sameRow
    have apartPlace : place.val ≠ index.val := fun same => apart ⟨rfl, Fin.ext same.symm⟩
    simp only [Vector.getElem_set_self]
    rw [Vector.getElem_set_ne _ _ apartPlace]
  · have apartRow : row.val ≠ other.val := fun same => sameRow (Fin.ext same.symm)
    simp only [Vector.getElem_set_ne _ _ apartRow]

/-- One row, and no other, counts the key. -/
theorem counts_recordRow (sketch : CountMinSketch) (key : Bytes) (row other : Fin depth)
    (index : Fin width) :
    (recordRow key sketch row).counts other index =
      if other = row then CountMin.access cell largest sketch.counts key other index
      else sketch.counts other index := by
  have bound := sketch.counts_le row (cell row key)
  unfold recordRow CountMin.access
  dsimp only
  by_cases room : sketch.counter row (cell row key) < 65535
  · rw [if_pos room]
    have below : sketch.counts row (cell row key) < largest := UInt16.lt_iff_toNat_lt.mp room
    unfold counts
    by_cases sameRow : other = row
    · subst sameRow
      rw [if_pos rfl]
      by_cases shared : cell other key = index
      · subst shared
        rw [counter_set_self, if_pos rfl]
        unfold counts at below
        rw [UInt16.toNat_add, min_eq_left below]
        unfold largest at below
        change ((sketch.counter other (cell other key)).toNat + 1) % 65536 = _
        omega
      · rw [counter_set_of_ne _ _ fun both => shared both.2.symm, if_neg shared]
    · rw [counter_set_of_ne _ _ fun both => sameRow both.1, if_neg sameRow]
  · rw [if_neg room]
    have reached : sketch.counts row (cell row key) = largest :=
      Nat.le_antisymm bound (Nat.le_of_not_lt fun below => room (UInt16.lt_iff_toNat_lt.mpr below))
    by_cases sameRow : other = row
    · subst sameRow
      rw [if_pos rfl]
      by_cases shared : cell other key = index
      · subst shared
        rw [if_pos rfl, reached, min_eq_right (Nat.le_succ _)]
      · rw [if_neg shared]
    · rw [if_neg sameRow]

theorem counts_rows (key : Bytes) (rows : List (Fin depth)) (distinct : rows.Nodup)
    (sketch : CountMinSketch) (row : Fin depth) (index : Fin width) :
    (row ∈ rows → (rows.foldl (recordRow key) sketch).counts row index =
        CountMin.access cell largest sketch.counts key row index) ∧
      (row ∉ rows →
        (rows.foldl (recordRow key) sketch).counts row index = sketch.counts row index) := by
  induction rows generalizing sketch with
  | nil => exact ⟨fun member => absurd member List.not_mem_nil, fun _ => rfl⟩
  | cons first rest induction =>
      rcases List.nodup_cons.mp distinct with ⟨fresh, distinctRest⟩
      rcases induction distinctRest (recordRow key sketch first) with ⟨counted, others⟩
      rw [List.foldl_cons]
      by_cases here : row = first
      · subst here
        refine ⟨fun _ => ?_, fun absent => absurd List.mem_cons_self absent⟩
        rw [others fresh, counts_recordRow, if_pos rfl]
      · have elsewhere (place : Fin width) :
            (recordRow key sketch first).counts row place = sketch.counts row place := by
          rw [counts_recordRow, if_neg here]
        have member : row ∈ first :: rest ↔ row ∈ rest := by
          rw [List.mem_cons, or_iff_right here]
        rw [member]
        refine ⟨fun inRest => ?_, fun absent => ?_⟩
        · rw [counted inRest]
          simp only [CountMin.access, elsewhere]
        · rw [others absent, elsewhere]

/-- `record_access` is an access of the abstract sketch. -/
theorem counts_recordAccess (sketch : CountMinSketch) (key : Bytes) :
    (sketch.recordAccess key).counts = CountMin.access cell largest sketch.counts key := by
  funext row index
  unfold recordAccess
  exact (counts_rows key _ (List.nodup_finRange depth) sketch row index).1
    (List.mem_finRange row)

theorem counts_accesses (accesses : List Bytes) (sketch : CountMinSketch) :
    (accesses.foldl recordAccess sketch).counts =
      accesses.foldl (CountMin.access cell largest) sketch.counts := by
  induction accesses generalizing sketch with
  | nil => rfl
  | cons key rest induction =>
      rw [List.foldl_cons, induction, counts_recordAccess, List.foldl_cons]

theorem counts_new : ({} : CountMinSketch).counts = fun _ _ => 0 := by
  funext row index
  unfold counts counter
  simp only [Vector.getElem_replicate]
  rfl

/-- `estimate_frequency` is the estimate of the abstract sketch. -/
theorem estimateFrequency_eq (sketch : CountMinSketch) (key : Bytes) :
    (sketch.estimateFrequency key).toNat =
      CountMin.estimate cell largest (List.finRange depth) sketch.counts key := by
  have loop (rows : List (Fin depth)) (least : UInt16) :
      (rows.foldl (fun least row =>
        if sketch.counter row (cell row key) < least then sketch.counter row (cell row key)
        else least) least).toNat =
      rows.foldl (fun least row => min least (sketch.counts row (cell row key))) least.toNat := by
    induction rows generalizing least with
    | nil => rfl
    | cons row rest induction =>
        rw [List.foldl_cons, induction, List.foldl_cons]
        congr 1
        by_cases less : sketch.counter row (cell row key) < least
        · rw [if_pos less]
          exact (min_eq_right (Nat.le_of_lt (UInt16.lt_iff_toNat_lt.mp less))).symm
        · rw [if_neg less]
          exact (min_eq_left (UInt16.le_iff_toNat_le.mp (UInt16.not_lt.mp less))).symm
  exact loop _ _

/-- After any accesses the estimate of a key is no less than its accesses and no more than
all accesses, as far as a counter reaches; every counter is the number of accesses to the
keys that share it, and every index lies in its row. -/
theorem frequency_estimate (accesses : List Bytes) (key : Bytes) :
    let sketch := accesses.foldl recordAccess {}
    (min (accesses.count key) 65535 ≤ (sketch.estimateFrequency key).toNat ∧
        (sketch.estimateFrequency key).toNat ≤ min accesses.length 65535) ∧
      (∀ row index, (sketch.counter row index).toNat =
        min (accesses.countP fun other => cell row other = index) 65535) ∧
      ∀ row, (hashIndex key row).toNat < width := by
  have counted : (accesses.foldl recordAccess {}).counts =
      accesses.foldl (CountMin.access cell largest) fun _ _ => 0 := by
    rw [counts_accesses, counts_new]
  refine ⟨?_, fun row index => ?_, hashIndex_lt key⟩
  · rw [estimateFrequency_eq, counted]
    have rows : List.finRange depth ≠ [] := by decide
    exact CountMin.estimate_bounds rows accesses key
  · change (accesses.foldl recordAccess {}).counts row index = _
    rw [counted, CountMin.foldl_access _ _ _ _ (Nat.zero_le _), Nat.zero_add]
    rfl

/-- Two accesses to a key and one to another. -/
example : (([ascii "k", ascii "j", ascii "k"].foldl recordAccess {}).estimateFrequency
    (ascii "k")).toNat = 2 := by
  decide +kernel

end SomniumDB.CountMinSketch
