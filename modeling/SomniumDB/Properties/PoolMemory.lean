import Mathlib.Data.List.Perm.Subperm
import Mathlib.Order.Lattice
import SomniumDB.Core.PoolAllocator

/-! # The pool is a heap

Used as a heap is used, the pool never reads an address from a node that does
not hold one, keeps every record until it is destroyed or written, and takes no
more blocks than the largest number of records ever alive needs. -/

namespace SomniumDB

open Function

variable {α : Type u} {blockSize : Nat}

/-! ## A heap -/

/-- What a client asks of a heap. -/
inductive HeapCall (α : Type u)
  | construct (value : α)
  | destroy (pointer : Nat)
  | write (pointer : Nat) (value : α)

/-- A heap holds values at addresses. A value is put at an address that holds
none; only where there is a value it may be changed or destroyed. -/
inductive HeapStep : (Nat → Option α) → HeapCall α → Option Nat → (Nat → Option α) → Prop
  | construct {heap : Nat → Option α} (value : α) {pointer : Nat}
      (unused : heap pointer = none) :
      HeapStep heap (.construct value) (some pointer) (update heap pointer (some value))
  | destroy {heap : Nat → Option α} {pointer : Nat} (used : (heap pointer).isSome) :
      HeapStep heap (.destroy pointer) none (update heap pointer none)
  | write {heap : Nat → Option α} {pointer : Nat} (value : α) (used : (heap pointer).isSome) :
      HeapStep heap (.write pointer value) none (update heap pointer (some value))

/-- A run, with the pointers that the calls return. -/
inductive HeapRun : (Nat → Option α) → List (HeapCall α) → List (Option Nat) →
    (Nat → Option α) → Prop
  | nil {heap : Nat → Option α} : HeapRun heap [] [] heap
  | cons {before between after : Nat → Option α} {call : HeapCall α}
      {calls : List (HeapCall α)} {result : Option Nat} {results : List (Option Nat)}
      (step : HeapStep before call result between) (rest : HeapRun between calls results after) :
      HeapRun before (call :: calls) (result :: results) after

/-- The pointer that a call is given is that of a value. -/
def HeapCall.Allowed (heap : Nat → Option α) : HeapCall α → Prop
  | .construct _ => True
  | .destroy pointer | .write pointer _ => (heap pointer).isSome

/-- The number of values after a call. -/
def HeapCall.count (live : Nat) : HeapCall α → Nat
  | .construct _ => live + 1
  | .destroy _ => live - 1
  | .write _ _ => live

/-- The largest number of values that there are at once. -/
def peak (live : Nat) : List (HeapCall α) → Nat
  | [] => live
  | call :: calls => max live (peak (call.count live) calls)

theorem le_peak (live : Nat) (calls : List (HeapCall α)) : live ≤ peak live calls := by
  cases calls with
  | nil => exact le_rfl
  | cons call calls => exact le_max_left _ _

namespace Pool

def call (blockSize : Nat) (pool : Pool α) : HeapCall α → Option (Pool α × Option Nat)
  | .construct value =>
      (pool.construct blockSize value).map fun (next, pointer) => (next, some pointer)
  | .destroy pointer => (pool.destroy pointer).map fun next => (next, none)
  | .write pointer value => (pool.write pointer value).map fun next => (next, none)

def run (blockSize : Nat) (pool : Pool α) :
    List (HeapCall α) → Option (Pool α × List (Option Nat))
  | [] => some (pool, [])
  | call :: calls =>
      match pool.call blockSize call with
      | none => none
      | some (next, result) =>
          (next.run blockSize calls).map fun (final, results) => (final, result :: results)

/-- Every call of a run is allowed when it is made. -/
def Disciplined (blockSize : Nat) : Pool α → List (HeapCall α) → Prop
  | _, [] => True
  | pool, call :: calls =>
      call.Allowed pool.value ∧
        match pool.call blockSize call with
        | none => True
        | some (next, _) => Disciplined blockSize next calls

/-! ## The free list -/

/-- The nodes that hold no record are linked, and there are no others. -/
structure WellFormed (blockSize : Nat) (pool : Pool α) (free : List Nat) : Prop where
  chain : Chain pool.link pool.head free
  covers : ∀ address, address < pool.blocks * blockSize ↔
    address ∈ free ∨ (pool.value address).isSome

variable {pool : Pool α} {free : List Nat}

/-- There are no more free nodes than nodes. -/
theorem WellFormed.length_le (wellFormed : pool.WellFormed blockSize free) :
    free.length ≤ pool.blocks * blockSize := by
  have inside : free ⊆ List.range (pool.blocks * blockSize) := by
    intro node member
    exact List.mem_range.mpr ((wellFormed.covers node).mpr (.inl member))
  have bound := (wellFormed.chain.nodup.subperm inside).length_le
  rw [List.length_range] at bound
  exact bound

theorem wellFormed_empty : WellFormed blockSize ({} : Pool α) [] := by
  constructor
  · exact .nil
  · simp [value, PoolNode.record]

theorem value_of_link {address : Nat} {next : Option Nat} (free : pool.link address = some next) :
    pool.value address = none := by
  simp only [link, value] at free ⊢
  cases held : pool.node address with
  | raw => rfl
  | next node => rfl
  | data value => simp [held, PoolNode.address] at free

theorem value_update (pool : Pool α) (pointer : Nat) (held : PoolNode α) (head : Option Nat) :
    ({ pool with head, node := update pool.node pointer held } : Pool α).value =
      update pool.value pointer held.record := by
  funext address
  by_cases same : address = pointer
  · rw [same]
    simp [value]
  · simp [value, same]

theorem link_update_of_ne {pointer address : Nat} (different : address ≠ pointer)
    (held : PoolNode α) (head : Option Nat) :
    ({ pool with head, node := update pool.node pointer held } : Pool α).link address =
      pool.link address := by
  simp [link, different]

/-- The links of a new block, as far as the loop has come. -/
theorem linked_range (base count : Nat) (node : Nat → PoolNode α) (address : Nat) :
    (List.range count).foldl
        (fun node i => update node (base + i) (.next (some (base + (i + 1))))) node address =
      if base ≤ address ∧ address < base + count then .next (some (address + 1))
      else node address := by
  induction count with
  | zero =>
      rw [if_neg (by omega)]
      rfl
  | succ count induction =>
      rw [List.range_succ, List.foldl_append]
      simp only [List.foldl_cons, List.foldl_nil]
      by_cases last : address = base + count
      · rw [last, update_self, if_pos (by omega)]
        rfl
      · rw [update_of_ne last, induction]
        by_cases inside : base ≤ address ∧ address < base + count
        · rw [if_pos inside, if_pos (by omega)]
        · rw [if_neg inside, if_neg (by omega)]

theorem allocateBlock_node (positive : 0 < blockSize) (address : Nat) :
    (pool.allocateBlock blockSize).node address =
      if address < pool.blocks * blockSize ∨ (pool.blocks + 1) * blockSize ≤ address then
        pool.node address
      else if address + 1 = (pool.blocks + 1) * blockSize then .next none
      else .next (some (address + 1)) := by
  have size : (pool.blocks + 1) * blockSize = pool.blocks * blockSize + blockSize := by
    rw [Nat.add_mul, Nat.one_mul]
  rw [size]
  simp only [allocateBlock]
  generalize pool.blocks * blockSize = base
  by_cases last : address = base + (blockSize - 1)
  · rw [last, update_self, if_neg (by omega), if_pos (by omega)]
  · rw [update_of_ne last, linked_range]
    by_cases inside : base ≤ address ∧ address < base + (blockSize - 1)
    · rw [if_pos inside, if_neg (by omega), if_neg (by omega)]
    · rw [if_neg inside, if_pos (by omega)]

/-- A new block is a chain of nodes that hold no record. -/
theorem wellFormed_allocateBlock (positive : 0 < blockSize)
    (wellFormed : pool.WellFormed blockSize []) :
    (pool.allocateBlock blockSize).WellFormed blockSize
        (List.range' (pool.blocks * blockSize) blockSize) ∧
      (pool.allocateBlock blockSize).value = pool.value := by
  have size : (pool.blocks + 1) * blockSize = pool.blocks * blockSize + blockSize := by
    rw [Nat.add_mul, Nat.one_mul]
  have unused : ∀ address, pool.blocks * blockSize ≤ address → pool.value address = none := by
    intro address beyond
    have covered := wellFormed.covers address
    simp only [List.not_mem_nil, false_or] at covered
    rw [← Option.not_isSome_iff_eq_none]
    intro held
    exact absurd (covered.mpr held) (Nat.not_lt.mpr beyond)
  have value : (pool.allocateBlock blockSize).value = pool.value := by
    funext address
    by_cases old : address < pool.blocks * blockSize ∨ (pool.blocks + 1) * blockSize ≤ address
    · simp only [Pool.value, allocateBlock_node positive, if_pos old]
    · rw [unused address (by omega)]
      simp only [Pool.value, allocateBlock_node positive, if_neg old]
      by_cases same : address + 1 = (pool.blocks + 1) * blockSize
      · rw [if_pos same]
        rfl
      · rw [if_neg same]
        rfl
  constructor
  · constructor
    · have linked : Chain (pool.allocateBlock blockSize).link (some (pool.blocks * blockSize))
          (List.range' (pool.blocks * blockSize) (blockSize - 1 + 1)) := by
        apply Chain.range
        · intro node after before
          simp only [link]
          rw [allocateBlock_node positive, if_neg (by omega), if_neg (by omega)]
          rfl
        · simp only [link]
          rw [allocateBlock_node positive, if_neg (by omega), if_pos (by omega)]
          rfl
      rw [Nat.sub_add_cancel positive] at linked
      exact linked
    · intro address
      rw [value, List.mem_range'_1]
      change address < (pool.blocks + 1) * blockSize ↔ _
      have covered := wellFormed.covers address
      simp only [List.not_mem_nil, false_or] at covered
      rw [← covered, size]
      omega
  · exact value

/-! ## The operations -/

/-- The first free node can be taken out of the list. -/
theorem take_first {node : Nat} {rest : List Nat}
    (wellFormed : pool.WellFormed blockSize (node :: rest)) :
    ∃ next, pool.head = some node ∧ pool.link node = some next ∧ Chain pool.link next rest ∧
      node ∉ rest ∧ pool.value node = none := by
  have fresh := (List.nodup_cons.mp wellFormed.chain.nodup).1
  have chain := wellFormed.chain
  generalize pool.head = first at chain
  cases chain with
  | cons leads behind => exact ⟨_, rfl, leads, behind, fresh, value_of_link leads⟩

/-- `construct` takes the first free node, of a new block if there is none. -/
theorem construct_spec (positive : 0 < blockSize) (wellFormed : pool.WellFormed blockSize free)
    (value : α) :
    ∃ next pointer rest, pool.construct blockSize value = some (next, pointer) ∧
      next.WellFormed blockSize rest ∧ pool.value pointer = none ∧
      next.value = update pool.value pointer (some value) ∧
      (free = pointer :: rest ∧ next.blocks = pool.blocks ∨
        free = [] ∧ rest.length + 1 = blockSize ∧ next.blocks = pool.blocks + 1) := by
  have used : ∀ {ready : Pool α} {node : Nat} {rest : List Nat} {next : Option Nat},
      ready.WellFormed blockSize (node :: rest) → ready.value = pool.value →
      Chain ready.link next rest → node ∉ rest →
        ({ ready with head := next, node := update ready.node node (.data value) } :
          Pool α).WellFormed blockSize rest ∧
        ({ ready with head := next, node := update ready.node node (.data value) } :
          Pool α).value = update pool.value node (some value) := by
    intro ready node rest next formed same behind absent
    have held := value_update ready node (.data value) next
    rw [same] at held
    refine ⟨⟨?_, ?_⟩, held⟩
    · apply behind.congr
      intro other member
      apply link_update_of_ne
      intro equal
      exact absent (equal ▸ member)
    · intro address
      rw [held]
      change address < ready.blocks * blockSize ↔ _
      rw [formed.covers address, same]
      by_cases here : address = node
      · simp [here, PoolNode.record]
      · simp [here]
  cases free with
  | nil =>
      rcases wellFormed_allocateBlock positive wellFormed with ⟨formed, same⟩
      have split : List.range' (pool.blocks * blockSize) blockSize =
          pool.blocks * blockSize :: List.range' (pool.blocks * blockSize + 1) (blockSize - 1) := by
        rw [← List.range'_succ, Nat.sub_add_cancel positive]
      rw [split] at formed
      rcases take_first formed with ⟨next, head, leads, behind, absent, unused⟩
      rcases used formed same behind absent with ⟨after, held⟩
      have empty : pool.head = none := by
        have chain := wellFormed.chain
        generalize pool.head = first at chain
        cases chain
        rfl
      rw [same] at unused
      refine ⟨_, _, _, ?_, after, unused, held, .inr ⟨rfl, ?_, rfl⟩⟩
      · simp [construct, allocate, empty, head, leads]
      · rw [List.length_range', Nat.sub_add_cancel positive]
  | cons node rest =>
      rcases take_first wellFormed with ⟨next, head, leads, behind, absent, unused⟩
      rcases used wellFormed rfl behind absent with ⟨after, held⟩
      refine ⟨_, _, _, ?_, after, unused, held, .inl ⟨rfl, rfl⟩⟩
      simp [construct, allocate, head, leads]

/-- `destroy` puts the node in front of the free ones. -/
theorem destroy_spec (wellFormed : pool.WellFormed blockSize free) {pointer : Nat}
    (used : (pool.value pointer).isSome) :
    ∃ next, pool.destroy pointer = some next ∧ next.WellFormed blockSize (pointer :: free) ∧
      next.value = update pool.value pointer none ∧ next.blocks = pool.blocks := by
  have absent : pointer ∉ free := by
    intro member
    rcases wellFormed.chain.leads_of_mem member with ⟨next, leads⟩
    rw [value_of_link leads] at used
    cases used
  have held : (pool.deallocate pointer).value = update pool.value pointer none :=
    value_update pool pointer (.next pool.head) (some pointer)
  rcases Option.isSome_iff_exists.mp used with ⟨value, found⟩
  refine ⟨pool.deallocate pointer, by simp [destroy, found], ⟨?_, ?_⟩, held, rfl⟩
  · apply @Chain.cons _ _ _ pool.head
    · simp [link, deallocate, PoolNode.address]
    · apply wellFormed.chain.congr
      intro node member
      apply link_update_of_ne
      intro equal
      exact absent (equal ▸ member)
  · intro address
    rw [held]
    change address < pool.blocks * blockSize ↔ _
    rw [wellFormed.covers address]
    by_cases here : address = pointer
    · simp [here, found]
    · simp [here]

/-- A write leaves the list alone. -/
theorem write_spec (wellFormed : pool.WellFormed blockSize free) {pointer : Nat}
    (used : (pool.value pointer).isSome) (value : α) :
    ∃ next, pool.write pointer value = some next ∧ next.WellFormed blockSize free ∧
      next.value = update pool.value pointer (some value) ∧ next.blocks = pool.blocks := by
  have absent : pointer ∉ free := by
    intro member
    rcases wellFormed.chain.leads_of_mem member with ⟨next, leads⟩
    rw [value_of_link leads] at used
    cases used
  have held := value_update pool pointer (.data value) pool.head
  rcases Option.isSome_iff_exists.mp used with ⟨old, found⟩
  refine ⟨{ pool with node := update pool.node pointer (.data value) },
    by simp [write, found], ⟨?_, ?_⟩, held, rfl⟩
  · apply wellFormed.chain.congr
    intro node member
    apply link_update_of_ne
    intro equal
    exact absent (equal ▸ member)
  · intro address
    have same : ({ pool with node := update pool.node pointer (.data value) } : Pool α).value =
        update pool.value pointer (some value) := held
    rw [same]
    change address < pool.blocks * blockSize ↔ _
    rw [wellFormed.covers address]
    by_cases here : address = pointer
    · simp [here, found]
    · simp [here]

/-! ## Runs -/

/-- What holds between two calls: how many records are alive, and how many have
been at most. -/
structure Holds (blockSize : Nat) (pool : Pool α) (live most : Nat) : Prop where
  formed : ∃ free, pool.WellFormed blockSize free ∧ free.length + live = pool.blocks * blockSize
  alive : live ≤ most
  enough : most ≤ pool.blocks * blockSize
  needed : pool.blocks * blockSize < most + blockSize

theorem holds_empty (positive : 0 < blockSize) : Holds blockSize ({} : Pool α) 0 0 := by
  constructor
  · exact ⟨[], wellFormed_empty, by simp⟩
  · exact le_rfl
  · exact Nat.zero_le _
  · simpa using positive

/-- One allowed call is one step of the heap. -/
theorem call_spec (positive : 0 < blockSize) {live most : Nat}
    (holds : pool.Holds blockSize live most) {call : HeapCall α}
    (allowed : call.Allowed pool.value) :
    ∃ next result, pool.call blockSize call = some (next, result) ∧
      HeapStep pool.value call result next.value ∧
      next.Holds blockSize (call.count live) (max most (call.count live)) := by
  rcases holds with ⟨⟨free, wellFormed, length⟩, alive, enough, needed⟩
  cases call with
  | construct value =>
      rcases construct_spec positive wellFormed value with
        ⟨next, pointer, rest, constructed, formed, unused, held, grown⟩
      refine ⟨next, some pointer, by simp [Pool.call, constructed], ?_, ?_⟩
      · rw [held]
        exact .construct value unused
      · simp only [HeapCall.count]
        rcases grown with ⟨same, blocks⟩ | ⟨same, block, blocks⟩
        · rw [same, List.length_cons] at length
          constructor
          · exact ⟨rest, formed, by rw [blocks]; omega⟩
          · exact le_max_right _ _
          · rw [blocks]
            omega
          · rw [blocks]
            omega
        · rw [same, List.length_nil] at length
          have size : (pool.blocks + 1) * blockSize = pool.blocks * blockSize + blockSize := by
            rw [Nat.add_mul, Nat.one_mul]
          constructor
          · exact ⟨rest, formed, by rw [blocks]; omega⟩
          · exact le_max_right _ _
          · rw [blocks]
            omega
          · rw [blocks]
            omega
  | destroy pointer =>
      rcases destroy_spec wellFormed allowed with ⟨next, destroyed, formed, held, blocks⟩
      refine ⟨next, none, by simp [Pool.call, destroyed], ?_, ?_⟩
      · rw [held]
        exact .destroy allowed
      · have some := formed.length_le
        rw [blocks, List.length_cons] at some
        simp only [HeapCall.count]
        constructor
        · refine ⟨pointer :: free, formed, ?_⟩
          rw [blocks, List.length_cons]
          omega
        · exact le_max_right _ _
        · rw [blocks]
          omega
        · rw [blocks]
          omega
  | write pointer value =>
      rcases write_spec wellFormed allowed value with ⟨next, written, formed, held, blocks⟩
      refine ⟨next, none, by simp [Pool.call, written], ?_, ?_⟩
      · rw [held]
        exact .write value allowed
      · simp only [HeapCall.count]
        constructor
        · exact ⟨free, formed, by rw [blocks]; exact length⟩
        · exact le_max_right _ _
        · rw [blocks]
          omega
        · rw [blocks]
          omega

theorem run_spec (positive : 0 < blockSize) {live most : Nat}
    (holds : pool.Holds blockSize live most) {calls : List (HeapCall α)}
    (disciplined : Disciplined blockSize pool calls) :
    ∃ final results live', pool.run blockSize calls = some (final, results) ∧
      HeapRun pool.value calls results final.value ∧
      final.Holds blockSize live' (max most (peak live calls)) := by
  induction calls generalizing pool live most with
  | nil =>
      refine ⟨pool, [], live, rfl, .nil, ?_⟩
      rcases holds with ⟨formed, alive, enough, needed⟩
      simp only [peak]
      rw [Nat.max_eq_left alive]
      exact ⟨formed, alive, enough, needed⟩
  | cons call calls induction =>
      rcases disciplined with ⟨allowed, later⟩
      rcases call_spec positive holds allowed with ⟨next, result, called, step, after⟩
      rw [called] at later
      rcases induction after later with
        ⟨final, results, live', rest, run, ends⟩
      refine ⟨final, result :: results, live', ?_, .cons step run, ?_⟩
      · simp [Pool.run, called, rest]
      · have alive := holds.alive
        have count := le_peak (call.count live) calls
        have most' : max (max most (call.count live)) (peak (call.count live) calls) =
            max most (peak live (call :: calls)) := by
          simp only [peak]
          omega
        rw [← most']
        exact ends

end Pool

/-- For every sequence of calls a client of a heap may make, on pointers that
the pool has handed out before: no call ever reads memory that does not hold
what it reads, the results are those of a heap, no record changes that is not
written, and the number of blocks is the least that holds the largest number of
records alive at once. -/
theorem pool_refines_heap (positive : 0 < blockSize) {calls : List (HeapCall α)}
    (disciplined : Pool.Disciplined blockSize {} calls) :
    ∃ pool results, Pool.run blockSize {} calls = some (pool, results) ∧
      HeapRun (fun _ => none) calls results pool.value ∧
      peak 0 calls ≤ pool.blocks * blockSize ∧
      pool.blocks * blockSize < peak 0 calls + blockSize := by
  rcases Pool.run_spec positive (Pool.holds_empty positive) disciplined with
    ⟨pool, results, live, run, heap, holds⟩
  have enough := holds.enough
  have needed := holds.needed
  rw [Nat.zero_max] at enough needed
  exact ⟨pool, results, run, heap, enough, needed⟩

/-- Three records in blocks of two, of which the second is destroyed and its
node used again. -/
def poolCalls : List (HeapCall Nat) :=
  [.construct 5, .construct 6, .construct 7, .destroy 1, .write 0 9, .construct 8]

theorem pool_refines_heap_sample :
    ∃ pool results, Pool.run 2 {} poolCalls = some (pool, results) ∧
      HeapRun (fun _ => none) poolCalls results pool.value ∧
      peak 0 poolCalls ≤ pool.blocks * 2 ∧ pool.blocks * 2 < peak 0 poolCalls + 2 := by
  apply pool_refines_heap (by decide)
  exact ⟨trivial, trivial, trivial, rfl, rfl, trivial, trivial⟩

end SomniumDB
