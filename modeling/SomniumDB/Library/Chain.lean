import Mathlib.Data.List.Basic

/-! # Linked lists in a memory

Every node of a memory may hold the address of the next one. The nodes that are
reached from a first one, in order, make a chain. -/

namespace SomniumDB

/-- The nodes reached from `first`; `link` says where a node leads, and nothing
when the node holds no address. -/
inductive Chain {α : Type u} (link : α → Option (Option α)) : Option α → List α → Prop
  | nil : Chain link none []
  | cons {node : α} {next : Option α} {nodes : List α} (leads : link node = some next)
      (behind : Chain link next nodes) : Chain link (some node) (node :: nodes)

namespace Chain

variable {α : Type u} {link other : α → Option (Option α)} {first : Option α} {nodes : List α}

/-- The links of other nodes do not matter. -/
theorem congr (chain : Chain link first nodes)
    (agree : ∀ node ∈ nodes, other node = link node) : Chain other first nodes := by
  induction chain with
  | nil => exact .nil
  | cons leads behind induction =>
      apply Chain.cons
      · rw [agree _ List.mem_cons_self, leads]
      · exact induction fun node member => agree node (List.mem_cons_of_mem _ member)

/-- A chain is determined by where it begins. -/
theorem unique {others : List α} (chain : Chain link first nodes)
    (second : Chain link first others) : others = nodes := by
  induction chain generalizing others with
  | nil =>
      cases second
      rfl
  | cons leads behind induction =>
      cases second with
      | cons led rest =>
          rw [leads, Option.some.injEq] at led
          rw [← led] at rest
          rw [induction rest]

/-- A chain never comes back to a node. -/
theorem nodup (chain : Chain link first nodes) : nodes.Nodup := by
  have shorter : ∀ {start : Option α} {front : List α}, Chain link start front →
      ∀ node ∈ front, ∃ tail, tail <:+ front ∧ Chain link (some node) tail := by
    intro start front whole
    induction whole with
    | nil =>
        intro node member
        cases member
    | cons leads behind induction =>
        intro node member
        rcases List.mem_cons.mp member with here | later
        · rw [here]
          exact ⟨_, List.suffix_rfl, .cons leads behind⟩
        · rcases induction node later with ⟨tail, isSuffix, reached⟩
          exact ⟨tail, isSuffix.trans (List.suffix_cons _ _), reached⟩
  induction chain with
  | nil => exact List.nodup_nil
  | @cons node next nodes leads behind induction =>
      rw [List.nodup_cons]
      refine ⟨?_, induction⟩
      intro member
      rcases shorter behind node member with ⟨tail, isSuffix, reached⟩
      have same := unique (.cons leads behind) reached
      have bound := isSuffix.length_le
      rw [same, List.length_cons] at bound
      omega

/-- Every node of a chain leads somewhere. -/
theorem leads_of_mem (chain : Chain link first nodes) {node : α} (member : node ∈ nodes) :
    ∃ next, link node = some next := by
  induction chain with
  | nil => cases member
  | cons leads behind induction =>
      rcases List.mem_cons.mp member with here | later
      · rw [here]
        exact ⟨_, leads⟩
      · exact induction later

/-- Consecutive addresses, each leading to the next. -/
theorem range {link : Nat → Option (Option Nat)} (count start : Nat)
    (leads : ∀ node, start ≤ node → node < start + count →
      link node = some (some (node + 1)))
    (last : link (start + count) = some none) :
    Chain link (some start) (List.range' start (count + 1)) := by
  induction count generalizing start with
  | zero => exact .cons last .nil
  | succ count induction =>
      rw [List.range'_succ]
      apply Chain.cons (leads start (Nat.le_refl _) (by omega))
      apply induction (start + 1)
      · intro node after before
        exact leads node (by omega) (by omega)
      · rw [show start + 1 + count = start + (count + 1) by omega]
        exact last

end Chain

end SomniumDB
