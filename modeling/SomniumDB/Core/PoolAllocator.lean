import Mathlib.Logic.Function.Basic
import SomniumDB.Library.Chain

/-! # The pool of the records (`pool_allocator.h`)

Memory is taken in blocks of `BlockSize` nodes. A node that is not in use holds
the address of the next one, in the bytes that a record takes when it is in
use. The mutex makes the operations atomic. -/

namespace SomniumDB

/-- `Node`: a union. A node that has never been written holds nothing that can
be read. -/
inductive PoolNode (α : Type u)
  | raw
  | next (node : Option Nat)
  | data (value : α)

def PoolNode.record : PoolNode α → Option α
  | .raw | .next _ => none
  | .data value => some value

def PoolNode.address : PoolNode α → Option (Option Nat)
  | .raw | .data _ => none
  | .next node => some node

/-- `PoolState`, with the memory of its blocks: the node `slot` of the block
`block` has the address `block * BlockSize + slot`. -/
structure Pool (α : Type u) where
  head : Option Nat := none
  /-- The number of blocks. -/
  blocks : Nat := 0
  node : Nat → PoolNode α := fun _ => .raw

namespace Pool

variable {α : Type u}

def value (pool : Pool α) (address : Nat) : Option α :=
  (pool.node address).record

def link (pool : Pool α) (address : Nat) : Option (Option Nat) :=
  (pool.node address).address

/-- `allocate_block`: the nodes of the new block are linked in order. -/
def allocateBlock (blockSize : Nat) (pool : Pool α) : Pool α :=
  let newBlock := pool.blocks * blockSize
  let linked := (List.range (blockSize - 1)).foldl
    (fun node i => Function.update node (newBlock + i) (.next (some (newBlock + (i + 1)))))
    pool.node
  { head := some newBlock
    blocks := pool.blocks + 1
    node := Function.update linked (newBlock + (blockSize - 1)) (.next none) }

/-- `allocate`, of one record. Nothing: an address is read from a node that
does not hold one. -/
def allocate (blockSize : Nat) (pool : Pool α) : Option (Pool α × Nat) :=
  let ready := if pool.head.isNone then pool.allocateBlock blockSize else pool
  match ready.head with
  | none => none
  | some node => (ready.link node).map fun next => ({ ready with head := next }, node)

/-- `deallocate`, of one record. -/
def deallocate (pool : Pool α) (pointer : Nat) : Pool α :=
  { pool with
    head := some pointer
    node := Function.update pool.node pointer (.next pool.head) }

def construct (blockSize : Nat) (pool : Pool α) (value : α) : Option (Pool α × Nat) :=
  (pool.allocate blockSize).map fun (ready, pointer) =>
    ({ ready with node := Function.update ready.node pointer (.data value) }, pointer)

/-- `destroy`; nothing: there is no record to destroy. -/
def destroy (pool : Pool α) (pointer : Nat) : Option (Pool α) :=
  (pool.value pointer).map fun _ => pool.deallocate pointer

/-- The record is changed through the pointer; nothing: there is no record. -/
def write (pool : Pool α) (pointer : Nat) (value : α) : Option (Pool α) :=
  (pool.value pointer).map fun _ =>
    { pool with node := Function.update pool.node pointer (.data value) }

end Pool

end SomniumDB
