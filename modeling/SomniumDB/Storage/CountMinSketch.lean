import SomniumDB.Library.Bytes
import SomniumDB.Library.CountMin

/-! # How often keys are accessed (`count_min_sketch.h`)

A `char` is signed, as on the platforms the program runs on. -/

namespace SomniumDB

open Bytes

namespace CountMinSketch

def width : Nat := 4096

def depth : Nat := 4

end CountMinSketch

structure CountMinSketch where
  table : Vector (Vector UInt16 CountMinSketch.width) CountMinSketch.depth :=
    Vector.replicate _ (Vector.replicate _ 0)

namespace CountMinSketch

/-- A `char` as a number of 32 bits. -/
def signExtended (c : UInt8) : UInt32 :=
  if c < 128 then c.toUInt32 else c.toUInt32 ||| 0xFFFFFF00

def fastHash (key : Bytes) (seed : UInt32) : UInt32 :=
  key.foldl (fun h c =>
    let mixed := (h ^^^ signExtended c) * 0x5bd1e995
    mixed ^^^ (mixed >>> 15)) seed

/-- The index of a key in a row, as a machine word. -/
def hashIndex (key : Bytes) (row : Nat) : UInt32 :=
  fastHash key (UInt32.ofNat (row + 1) * 0x9e3779b9) &&& UInt32.ofNat (width - 1)

theorem hashIndex_lt (key : Bytes) (row : Nat) : (hashIndex key row).toNat < width := by
  unfold hashIndex
  rw [UInt32.toNat_and]
  exact Nat.lt_of_le_of_lt Nat.and_le_right (by decide)

def cell (row : Fin depth) (key : Bytes) : Fin width :=
  ⟨(hashIndex key row).toNat, hashIndex_lt key row⟩

def counter (sketch : CountMinSketch) (row : Fin depth) (index : Fin width) : UInt16 :=
  sketch.table[row.val][index.val]

/-- The body of the loop of `record_access`. -/
def recordRow (key : Bytes) (sketch : CountMinSketch) (row : Fin depth) : CountMinSketch :=
  let count := sketch.counter row (cell row key)
  if count < 0xFFFF then
    { table := sketch.table.set row
        (sketch.table[row.val].set (cell row key) (count + 1) (cell row key).isLt) row.isLt }
  else sketch

def recordAccess (sketch : CountMinSketch) (key : Bytes) : CountMinSketch :=
  (List.finRange depth).foldl (recordRow key) sketch

def estimateFrequency (sketch : CountMinSketch) (key : Bytes) : UInt16 :=
  (List.finRange depth).foldl (fun least row =>
    let count := sketch.counter row (cell row key)
    if count < least then count else least) 0xFFFF

end CountMinSketch

end SomniumDB
