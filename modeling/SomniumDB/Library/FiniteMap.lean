import Mathlib.Algebra.Ring.Int.Defs
import Mathlib.Data.List.AList

/-! # Finite maps

Association lists without repeated keys, as Mathlib's `AList` at a constant
value type, with the two bulk operations it lacks: filtering and mapping the
values. Iteration order is the list order; every lemma here is about lookup,
so nothing downstream depends on it. -/

namespace SomniumDB

abbrev FiniteMap (κ : Type u) (ν : Type v) := AList (fun _ : κ => ν)

namespace FiniteMap

variable {κ : Type u} {ν : Type v} [DecidableEq κ]

/-- The entries in iteration order. -/
def toPairs (map : FiniteMap κ ν) : List (κ × ν) :=
  map.entries.map fun entry => (entry.1, entry.2)

theorem mem_toPairs (map : FiniteMap κ ν) (key : κ) (value : ν) :
    (key, value) ∈ map.toPairs ↔ map.lookup key = some value := by
  have viaEntries : (key, value) ∈ map.toPairs ↔
      (⟨key, value⟩ : (_ : κ) × ν) ∈ map.entries := by
    constructor
    · intro member
      rcases List.mem_map.mp member with ⟨⟨found, content⟩, inEntries, equal⟩
      cases equal
      exact inEntries
    · intro member
      exact List.mem_map.mpr ⟨⟨key, value⟩, member, rfl⟩
  rw [viaEntries, ← AList.mem_lookup_iff, Option.mem_def]

omit [DecidableEq κ] in
theorem toPairs_nodup_keys (map : FiniteMap κ ν) :
    (map.toPairs.map Prod.fst).Nodup := by
  have sameKeys : map.toPairs.map Prod.fst = map.keys := by
    simp [toPairs, AList.keys, List.keys, Function.comp_def]
  rw [sameKeys]
  exact map.keys_nodup

omit [DecidableEq κ] in
/-- Maps with the same keys have equally many entries. -/
theorem length_toPairs_of_keys {left right : FiniteMap κ ν}
    (same : ∀ key, key ∈ left ↔ key ∈ right) : left.toPairs.length = right.toPairs.length := by
  have lengths : ∀ map : FiniteMap κ ν, map.toPairs.length = map.keys.length := by
    intro map
    simp [toPairs, AList.keys, List.keys]
  have permuted : left.keys.Perm right.keys :=
    (List.perm_ext_iff_of_nodup left.keys_nodup right.keys_nodup).mpr same
  rw [lengths, lengths, permuted.length_eq]

/-- Keep the entries that satisfy `keep`. -/
def filter (keep : κ → ν → Bool) (map : FiniteMap κ ν) : FiniteMap κ ν where
  entries := map.entries.filter fun entry => keep entry.1 entry.2
  nodupKeys := map.nodupKeys.sublist List.filter_sublist

theorem lookup_filter (keep : κ → ν → Bool) (map : FiniteMap κ ν) (key : κ) :
    (map.filter keep).lookup key = (map.lookup key).filter (keep key) := by
  apply Option.ext
  intro value
  rw [← Option.mem_def, AList.mem_lookup_iff, Option.filter_eq_some_iff]
  simp only [filter, List.mem_filter]
  rw [← AList.mem_lookup_iff, Option.mem_def]

/-- Apply `transform` to every value. -/
def mapValues (transform : ν → ν') (map : FiniteMap κ ν) : FiniteMap κ ν' where
  entries := map.entries.map fun entry => ⟨entry.1, transform entry.2⟩
  nodupKeys := by
    have nodup := map.nodupKeys
    unfold List.NodupKeys List.keys at nodup ⊢
    rw [List.map_map]
    exact nodup

theorem lookup_mapValues (transform : ν → ν') (map : FiniteMap κ ν) (key : κ) :
    (map.mapValues transform).lookup key = (map.lookup key).map transform := by
  apply Option.ext
  intro value
  rw [← Option.mem_def, AList.mem_lookup_iff, Option.map_eq_some_iff]
  simp only [mapValues, List.mem_map]
  constructor
  · rintro ⟨⟨found, content⟩, member, equal⟩
    cases equal
    exact ⟨content, AList.mem_lookup_iff.mpr member, rfl⟩
  · rintro ⟨content, found, rfl⟩
    exact ⟨⟨key, content⟩, AList.mem_lookup_iff.mp found, rfl⟩

theorem lookup_insert_if (map : FiniteMap κ ν) (key other : κ) (value : ν) :
    (map.insert key value).lookup other =
      if other = key then some value else map.lookup other := by
  by_cases equal : other = key
  · subst other
    rw [if_pos rfl]
    exact AList.lookup_insert map
  · rw [if_neg equal]
    exact AList.lookup_insert_ne equal

theorem lookup_erase_if (map : FiniteMap κ ν) (key other : κ) :
    (map.erase key).lookup other =
      if other = key then none else map.lookup other := by
  by_cases equal : other = key
  · subst other
    rw [if_pos rfl]
    exact AList.lookup_erase key map
  · rw [if_neg equal]
    exact AList.lookup_erase_ne equal

theorem lookup_of_entries_nil {map : FiniteMap κ ν} (empty : map.entries = [])
    (key : κ) : map.lookup key = none := by
  simp [AList.lookup, empty]

/-! ## Totals -/

/-- The sum of a weight over the entries. -/
def total (weight : κ → ν → Int) (map : FiniteMap κ ν) : Int :=
  (map.toPairs.map fun entry => weight entry.1 entry.2).sum

section Total

variable (weight : κ → ν → Int) (map : FiniteMap κ ν)

omit [DecidableEq κ] in
theorem total_eq : map.total weight =
    (map.entries.map fun entry => weight entry.1 entry.2).sum := by
  rw [total, toPairs, List.map_map]
  rfl

omit [DecidableEq κ] in
@[simp] theorem total_empty : (∅ : FiniteMap κ ν).total weight = 0 := rfl

theorem total_kerase (entries : List ((_ : κ) × ν)) (key : κ) :
    ((entries.kerase key).map fun entry => weight entry.1 entry.2).sum =
      (entries.map fun entry => weight entry.1 entry.2).sum -
        ((entries.dlookup key).map (weight key)).getD 0 := by
  induction entries with
  | nil => rfl
  | cons entry rest induction =>
      rcases entry with ⟨first, value⟩
      by_cases here : key = first
      · subst here
        have erased : List.kerase key (⟨key, value⟩ :: rest) = rest :=
          List.kerase_cons_eq (β := fun _ => ν) rfl
        have found : List.dlookup key (⟨key, value⟩ :: rest) = some value :=
          List.dlookup_cons_eq (β := fun _ => ν) rest key value
        rw [erased, found, List.map_cons, List.sum_cons, Option.map_some, Option.getD_some]
        dsimp only
        omega
      · have erased : List.kerase key (⟨first, value⟩ :: rest) =
            ⟨first, value⟩ :: List.kerase key rest :=
          List.kerase_cons_ne (β := fun _ => ν) here
        have found : List.dlookup key (⟨first, value⟩ :: rest) = List.dlookup key rest :=
          List.dlookup_cons_ne (β := fun _ => ν) rest ⟨first, value⟩ here
        rw [erased, found, List.map_cons, List.map_cons, List.sum_cons, List.sum_cons, induction]
        omega

/-- An entry that is erased takes its weight along. -/
theorem total_erase (key : κ) : total weight (map.erase key) =
    map.total weight - ((map.lookup key).map (weight key)).getD 0 := by
  rw [total_eq, total_eq]
  exact total_kerase weight map.entries key

/-- An entry that is inserted replaces the weight of the old one. -/
theorem total_insert (key : κ) (value : ν) : total weight (map.insert key value) =
    map.total weight - ((map.lookup key).map (weight key)).getD 0 + weight key value := by
  have erased := total_kerase weight map.entries key
  rw [total_eq, AList.entries_insert, List.map_cons, List.sum_cons, erased, total_eq,
    AList.lookup]
  dsimp only
  omega

omit [DecidableEq κ] in
theorem total_filter (keep : κ → ν → Bool) :
    (map.filter keep).total weight =
      map.total weight - (map.filter fun key value => !keep key value).total weight := by
  rw [total_eq, total_eq, total_eq, filter, filter]
  dsimp only
  induction map.entries with
  | nil => rfl
  | cons entry rest induction =>
      cases kept : keep entry.1 entry.2 with
      | false =>
          rw [List.filter_cons_of_neg (by rw [kept]; decide),
            List.filter_cons_of_pos (by rw [kept]; rfl), List.map_cons, List.map_cons,
            List.sum_cons, List.sum_cons, induction]
          omega
      | true =>
          rw [List.filter_cons_of_pos (by rw [kept]), List.filter_cons_of_neg (by rw [kept]; decide),
            List.map_cons, List.map_cons, List.sum_cons, List.sum_cons, induction]
          omega

omit [DecidableEq κ] in
/-- The number of entries. -/
theorem total_one : map.total (fun _ _ => 1) = map.toPairs.length := by
  simp [total]

omit [DecidableEq κ] in
theorem total_nonneg (nonneg : ∀ key value, 0 ≤ weight key value) : 0 ≤ map.total weight := by
  rw [total_eq]
  induction map.entries with
  | nil => exact Int.le_refl 0
  | cons entry rest induction =>
      rw [List.map_cons, List.sum_cons]
      exact Int.add_nonneg (nonneg entry.1 entry.2) induction

theorem total_congr {other : κ → ν → Int}
    (same : ∀ key value, map.lookup key = some value → weight key value = other key value) :
    map.total weight = map.total other := by
  unfold total
  congr 1
  apply List.map_congr_left
  rintro ⟨key, value⟩ member
  exact same key value ((mem_toPairs map key value).mp member)

theorem total_zero (zero : ∀ key value, map.lookup key = some value → weight key value = 0) :
    map.total weight = 0 := by
  have same : map.total weight = map.total fun _ _ => 0 := total_congr weight map zero
  rw [same]
  simp [total]

end Total

end FiniteMap

end SomniumDB
