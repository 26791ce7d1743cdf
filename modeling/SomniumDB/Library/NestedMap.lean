import SomniumDB.Library.FiniteMap

/-! # Two-level maps

A map of maps in which an inner map that becomes empty is removed from the
outer one, the shape of an index kept per group. Only `find` is observed from
outside, so each operation is characterised by what it does to `find`. -/

namespace SomniumDB

abbrev NestedMap (κ : Type u) (ι : Type v) (ν : Type w) :=
  FiniteMap κ (FiniteMap ι ν)

namespace NestedMap

variable {κ : Type u} {ι : Type v} {ν : Type w} [DecidableEq κ] [DecidableEq ι]

def find (map : NestedMap κ ι ν) (outer : κ) (inner : ι) : Option ν :=
  (map.lookup outer).bind fun entries => entries.lookup inner

def set (map : NestedMap κ ι ν) (outer : κ) (inner : ι) (value : ν) :
    NestedMap κ ι ν :=
  map.insert outer (((map.lookup outer).getD ∅).insert inner value)

/-- Replace the inner map at `outer`, or drop it when nothing is left. -/
def store (map : NestedMap κ ι ν) (outer : κ) (entries : FiniteMap ι ν) :
    NestedMap κ ι ν :=
  if entries.entries = [] then map.erase outer else map.insert outer entries

def remove (map : NestedMap κ ι ν) (outer : κ) (inner : ι) : NestedMap κ ι ν :=
  match map.lookup outer with
  | none => map
  | some entries => map.store outer (entries.erase inner)

/-- Keep the entries that satisfy `keep`, dropping inner maps left empty. -/
def filter (keep : κ → ι → ν → Bool) (map : NestedMap κ ι ν) :
    NestedMap κ ι ν :=
  let kept : NestedMap κ ι ν :=
    { entries := map.entries.map fun entry =>
        ⟨entry.1, FiniteMap.filter (keep entry.1) entry.2⟩
      nodupKeys := by
        have nodup := map.nodupKeys
        unfold List.NodupKeys List.keys at nodup ⊢
        rw [List.map_map]
        exact nodup }
  FiniteMap.filter (fun _ entries => !entries.entries.isEmpty) kept

/-- Every entry with its two keys, in iteration order. -/
def toTriples (map : NestedMap κ ι ν) : List (κ × ι × ν) :=
  map.toPairs.flatMap fun group =>
    group.2.toPairs.map fun entry => (group.1, entry.1, entry.2)

@[simp] theorem find_empty (outer : κ) (inner : ι) :
    find (∅ : NestedMap κ ι ν) outer inner = none := by
  simp [find]

theorem find_set (map : NestedMap κ ι ν) (outer other : κ) (inner within : ι)
    (value : ν) :
    find (map.set outer inner value) other within =
      if other = outer ∧ within = inner then some value
      else find map other within := by
  simp only [find, set, FiniteMap.lookup_insert_if]
  by_cases sameOuter : other = outer
  · subst other
    rw [if_pos rfl, Option.bind_some, FiniteMap.lookup_insert_if]
    by_cases sameInner : within = inner
    · simp [sameInner]
    · cases present : AList.lookup outer map <;> simp [sameInner]
  · simp [sameOuter]

theorem find_store (map : NestedMap κ ι ν) (outer other : κ) (within : ι)
    (entries : FiniteMap ι ν) :
    find (map.store outer entries) other within =
      if other = outer then entries.lookup within else find map other within := by
  unfold store
  by_cases empty : entries.entries = []
  · rw [if_pos empty]
    simp only [find, FiniteMap.lookup_erase_if]
    by_cases sameOuter : other = outer
    · simp [sameOuter, FiniteMap.lookup_of_entries_nil empty]
    · simp [sameOuter]
  · rw [if_neg empty]
    simp only [find, FiniteMap.lookup_insert_if]
    by_cases sameOuter : other = outer <;> simp [sameOuter]

theorem find_remove (map : NestedMap κ ι ν) (outer other : κ)
    (inner within : ι) :
    find (map.remove outer inner) other within =
      if other = outer ∧ within = inner then none
      else find map other within := by
  unfold remove
  cases present : AList.lookup outer map with
  | none =>
      by_cases here : other = outer ∧ within = inner
      · rw [if_pos here, here.1]
        simp [find, present]
      · rw [if_neg here]
  | some entries =>
      rw [find_store, FiniteMap.lookup_erase_if]
      by_cases sameOuter : other = outer
      · subst other
        by_cases sameInner : within = inner <;>
          simp [sameInner, find, present]
      · simp [sameOuter]

theorem find_filter (keep : κ → ι → ν → Bool) (map : NestedMap κ ι ν)
    (outer : κ) (inner : ι) :
    find (map.filter keep) outer inner =
      (find map outer inner).filter (keep outer inner) := by
  unfold filter
  generalize keptEq : (AList.mk _ _ : NestedMap κ ι ν) = kept
  have keptLookup : kept.lookup outer =
      (map.lookup outer).map (FiniteMap.filter (keep outer)) := by
    subst keptEq
    apply Option.ext
    intro entries
    rw [← Option.mem_def, AList.mem_lookup_iff, Option.map_eq_some_iff]
    simp only [List.mem_map]
    constructor
    · rintro ⟨⟨found, content⟩, member, equal⟩
      cases equal
      exact ⟨content, AList.mem_lookup_iff.mpr member, rfl⟩
    · rintro ⟨content, found, rfl⟩
      exact ⟨⟨outer, content⟩, AList.mem_lookup_iff.mp found, rfl⟩
  have atOuter : (AList.lookup outer (FiniteMap.filter
      (fun _ entries => !entries.entries.isEmpty) kept)) =
      (kept.lookup outer).filter fun entries => !entries.entries.isEmpty :=
    FiniteMap.lookup_filter _ kept outer
  unfold find
  rw [atOuter, keptLookup]
  cases present : AList.lookup outer map with
  | none => rfl
  | some entries =>
      simp only [Option.map_some, Option.bind_some, Option.filter_some]
      by_cases empty : (FiniteMap.filter (keep outer) entries).entries = []
      · have nothing := FiniteMap.lookup_of_entries_nil empty inner
        rw [FiniteMap.lookup_filter] at nothing
        simp [empty, nothing]
      · simp [empty, FiniteMap.lookup_filter]

theorem mem_toTriples (map : NestedMap κ ι ν) (outer : κ) (inner : ι)
    (value : ν) :
    (outer, inner, value) ∈ map.toTriples ↔ find map outer inner = some value := by
  unfold toTriples find
  simp only [List.mem_flatMap, List.mem_map, Prod.exists, Prod.mk.injEq]
  constructor
  · rintro ⟨group, entries, inMap, key, content, inEntries, rfl, rfl, rfl⟩
    rw [(FiniteMap.mem_toPairs map group entries).mp inMap]
    exact (FiniteMap.mem_toPairs entries key content).mp inEntries
  · intro found
    rcases Option.bind_eq_some_iff.mp found with ⟨entries, atOuter, atInner⟩
    exact ⟨outer, entries, (FiniteMap.mem_toPairs map outer entries).mpr atOuter,
      inner, value, (FiniteMap.mem_toPairs entries inner value).mpr atInner,
      rfl, rfl, rfl⟩

/-! ## No inner map is empty -/

/-- The groups that are there have entries. -/
def Occupied (map : NestedMap κ ι ν) : Prop :=
  ∀ outer entries, map.lookup outer = some entries → entries.entries ≠ []

omit [DecidableEq ι] in
theorem occupied_empty : Occupied (∅ : NestedMap κ ι ν) := by
  rintro outer entries ⟨⟩

theorem Occupied.set {map : NestedMap κ ι ν} (occupied : map.Occupied) (outer : κ) (inner : ι)
    (value : ν) : (map.set outer inner value).Occupied := by
  intro other entries found
  rw [NestedMap.set, FiniteMap.lookup_insert_if] at found
  by_cases same : other = outer
  · rw [if_pos same] at found
    rcases Option.some.inj found with rfl
    rw [AList.entries_insert]
    exact List.cons_ne_nil _ _
  · rw [if_neg same] at found
    exact occupied other entries found

theorem Occupied.remove {map : NestedMap κ ι ν} (occupied : map.Occupied) (outer : κ)
    (inner : ι) : (map.remove outer inner).Occupied := by
  unfold NestedMap.remove
  cases map.lookup outer with
  | none => exact occupied
  | some _ =>
      dsimp only
      intro other entries found
      unfold NestedMap.store at found
      split at found
      · rw [FiniteMap.lookup_erase_if] at found
        by_cases same : other = outer
        · rw [if_pos same] at found
          cases found
        · rw [if_neg same] at found
          exact occupied other entries found
      · rename_i remaining
        rw [FiniteMap.lookup_insert_if] at found
        by_cases same : other = outer
        · rw [if_pos same] at found
          rcases Option.some.inj found with rfl
          exact remaining
        · rw [if_neg same] at found
          exact occupied other entries found

omit [DecidableEq ι] in
theorem occupied_filter (keep : κ → ι → ν → Bool) (map : NestedMap κ ι ν) :
    (map.filter keep).Occupied := by
  intro outer entries found
  unfold filter at found
  dsimp only at found
  rw [FiniteMap.lookup_filter] at found
  have some := (Option.filter_eq_some_iff.mp found).2
  intro empty
  rw [empty] at some
  cases some

/-! ## The number of entries -/

/-- The number of entries, over all the groups. -/
def size (map : NestedMap κ ι ν) : Int :=
  map.total fun _ entries => entries.toPairs.length

omit [DecidableEq κ] [DecidableEq ι] in
theorem length_toTriples (map : NestedMap κ ι ν) : (map.toTriples.length : Int) = map.size := by
  unfold toTriples size FiniteMap.total
  induction map.toPairs with
  | nil => rfl
  | cons group rest induction =>
      rw [List.flatMap_cons, List.length_append, List.length_map, List.map_cons, List.sum_cons,
        ← induction]
      push_cast
      rfl

theorem size_set (map : NestedMap κ ι ν) (outer : κ) (inner : ι) (value : ν) :
    (map.set outer inner value).size =
      map.size + if (map.find outer inner).isSome then 0 else 1 := by
  unfold size set find
  rw [FiniteMap.total_insert, ← FiniteMap.total_one, FiniteMap.total_insert]
  cases map.lookup outer with
  | none => simp
  | some entries =>
      rw [Option.map_some, Option.getD_some, Option.getD_some, Option.bind_some,
        ← FiniteMap.total_one]
      cases entries.lookup inner with
      | none =>
          simp only [Option.map_none, Option.getD_none, Option.isSome_none, Bool.false_eq_true,
            if_false]
          omega
      | some old => simp

theorem size_remove (map : NestedMap κ ι ν) (outer : κ) (inner : ι) :
    (map.remove outer inner).size =
      map.size - if (map.find outer inner).isSome then 1 else 0 := by
  unfold size remove find
  cases found : AList.lookup outer map with
  | none => simp
  | some entries =>
      have erased := FiniteMap.total_erase (fun _ _ => 1) entries inner
      rw [FiniteMap.total_one, FiniteMap.total_one] at erased
      have lost : ((entries.lookup inner).map fun _ => (1 : Int)).getD 0 =
          if (entries.lookup inner).isSome then 1 else 0 := by
        cases entries.lookup inner <;> rfl
      dsimp only [Option.bind_some]
      rw [← lost]
      unfold store
      by_cases empty : (AList.erase inner entries).entries = []
      · rw [if_pos empty]
        have none : (FiniteMap.toPairs (entries.erase inner)).length = 0 := by
          simp [FiniteMap.toPairs, empty]
        rw [FiniteMap.total_erase, found, Option.map_some, Option.getD_some]
        omega
      · rw [if_neg empty]
        rw [FiniteMap.total_insert, found, Option.map_some, Option.getD_some]
        omega

end NestedMap

end SomniumDB
