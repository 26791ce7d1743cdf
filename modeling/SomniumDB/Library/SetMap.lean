import Mathlib.Data.List.Basic
import SomniumDB.Library.FiniteMap

/-! # Maps to sets

A finite map whose values are sets, each a list without repetition. A map is `Proper` when
it has no empty set: a key is then present exactly when its set has a member. -/

namespace SomniumDB

abbrev SetMap (κ : Type u) (ι : Type v) := FiniteMap κ (List ι)

namespace SetMap

variable {κ : Type u} {ι : Type v} [DecidableEq κ] [BEq ι]

/-- The set of a key; a key that is absent has the empty set. -/
def members (map : SetMap κ ι) (key : κ) : List ι :=
  (map.lookup key).getD []

def add (map : SetMap κ ι) (key : κ) (member : ι) : SetMap κ ι :=
  map.insert key ((members map key).insert member)

/-- Take a member out, and the key with it when its set is empty. -/
def remove (map : SetMap κ ι) (key : κ) (member : ι) : SetMap κ ι :=
  match map.lookup key with
  | none => map
  | some set =>
      if set.erase member = [] then map.erase key else map.insert key (set.erase member)

def Distinct (map : SetMap κ ι) : Prop :=
  ∀ key set, map.lookup key = some set → set.Nodup

structure Proper (map : SetMap κ ι) : Prop where
  distinct : map.Distinct
  nonempty : ∀ key set, map.lookup key = some set → set ≠ []

section Members

omit [BEq ι]

theorem members_insert (map : SetMap κ ι) (key other : κ) (set : List ι) :
    members (map.insert key set) other = if other = key then set else members map other := by
  unfold members
  rw [FiniteMap.lookup_insert_if]
  by_cases same : other = key
  · simp only [if_pos same]
    rfl
  · simp only [if_neg same]

theorem members_erase (map : SetMap κ ι) (key other : κ) :
    members (map.erase key) other = if other = key then [] else members map other := by
  unfold members
  rw [FiniteMap.lookup_erase_if]
  by_cases same : other = key
  · simp only [if_pos same]
    rfl
  · simp only [if_neg same]

theorem Distinct.members {map : SetMap κ ι} (distinct : map.Distinct) (key : κ) :
    (members map key).Nodup := by
  unfold SetMap.members
  cases found : map.lookup key with
  | none => exact List.nodup_nil
  | some set => exact distinct key set found

theorem Distinct.insert {map : SetMap κ ι} (distinct : map.Distinct) (key : κ) {set : List ι}
    (nodup : set.Nodup) : SetMap.Distinct (AList.insert key set map) := by
  intro other found stored
  rw [FiniteMap.lookup_insert_if] at stored
  by_cases same : other = key
  · rw [if_pos same] at stored
    cases stored
    exact nodup
  · rw [if_neg same] at stored
    exact distinct other found stored

theorem Distinct.erase {map : SetMap κ ι} (distinct : map.Distinct) (key : κ) :
    SetMap.Distinct (AList.erase key map) := by
  intro other found stored
  rw [FiniteMap.lookup_erase_if] at stored
  by_cases same : other = key
  · rw [if_pos same] at stored
    cases stored
  · rw [if_neg same] at stored
    exact distinct other found stored

theorem Proper.insert {map : SetMap κ ι} (proper : map.Proper) (key : κ) {set : List ι}
    (nodup : set.Nodup) (nonempty : set ≠ []) : SetMap.Proper (AList.insert key set map) where
  distinct := proper.distinct.insert key nodup
  nonempty := by
    intro other found stored
    rw [FiniteMap.lookup_insert_if] at stored
    by_cases same : other = key
    · rw [if_pos same] at stored
      cases stored
      exact nonempty
    · rw [if_neg same] at stored
      exact proper.nonempty other found stored

theorem Proper.erase {map : SetMap κ ι} (proper : map.Proper) (key : κ) :
    SetMap.Proper (AList.erase key map) where
  distinct := proper.distinct.erase key
  nonempty := by
    intro other found stored
    rw [FiniteMap.lookup_erase_if] at stored
    by_cases same : other = key
    · rw [if_pos same] at stored
      cases stored
    · rw [if_neg same] at stored
      exact proper.nonempty other found stored

/-- In a proper map the keys are those with a member. -/
theorem Proper.mem_iff {map : SetMap κ ι} (proper : map.Proper) (key : κ) :
    key ∈ map ↔ members map key ≠ [] := by
  unfold members
  rw [← AList.lookup_isSome]
  cases found : map.lookup key with
  | none => simp
  | some set => simpa using proper.nonempty key set found

@[simp] theorem proper_empty : SetMap.Proper (∅ : SetMap κ ι) where
  distinct := by
    intro key set stored
    cases stored
  nonempty := by
    intro key set stored
    cases stored

end Members

variable [LawfulBEq ι]

omit [LawfulBEq ι] in
theorem members_add (map : SetMap κ ι) (key other : κ) (member : ι) :
    members (map.add key member) other =
      if other = key then (members map key).insert member else members map other :=
  members_insert map key other _

omit [LawfulBEq ι] in
theorem members_remove (map : SetMap κ ι) (key other : κ) (member : ι) :
    members (map.remove key member) other =
      if other = key then (members map key).erase member else members map other := by
  unfold remove
  cases found : map.lookup key with
  | none =>
      by_cases here : other = key
      · subst here
        rw [if_pos rfl]
        simp [members, found]
      · rw [if_neg here]
  | some set =>
      have here : members map key = set := by
        simp [members, found]
      rw [here]
      by_cases last : set.erase member = []
      · simp only [last, if_true]
        exact members_erase map key other
      · simp only [last, if_false]
        exact members_insert map key other _

theorem mem_members_add (map : SetMap κ ι) (key other : κ) (member among : ι) :
    among ∈ members (map.add key member) other ↔
      (other = key ∧ among = member) ∨ among ∈ members map other := by
  rw [members_add]
  by_cases here : other = key
  · subst here
    simp
  · simp [here]

theorem Distinct.mem_members_remove {map : SetMap κ ι} (distinct : map.Distinct)
    (key other : κ) (member among : ι) :
    among ∈ SetMap.members (map.remove key member) other ↔
      among ∈ SetMap.members map other ∧ ¬(other = key ∧ among = member) := by
  rw [members_remove]
  by_cases here : other = key
  · subst here
    rw [if_pos rfl, (distinct.members other).mem_erase_iff]
    tauto
  · simp [here]

theorem Proper.add {map : SetMap κ ι} (proper : map.Proper) (key : κ) (member : ι) :
    (map.add key member).Proper := by
  refine proper.insert key ((proper.distinct.members key).insert) ?_
  intro empty
  have inside : member ∈ (members map key).insert member := List.mem_insert_self
  rw [empty] at inside
  cases inside

theorem Proper.remove {map : SetMap κ ι} (proper : map.Proper) (key : κ) (member : ι) :
    (map.remove key member).Proper := by
  unfold SetMap.remove
  cases found : map.lookup key with
  | none => exact proper
  | some set =>
      by_cases last : set.erase member = []
      · simp only [last, if_true]
        exact proper.erase key
      · simp only [last, if_false]
        exact proper.insert key ((proper.distinct key set found).erase member) last

end SetMap

end SomniumDB
