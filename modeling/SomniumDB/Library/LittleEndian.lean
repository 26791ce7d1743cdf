import Mathlib.Tactic.Ring
import SomniumDB.Library.Bytes

/-! # Fixed-width integers in memory order

The least significant byte first, as `memcpy` of an integer gives on the
platforms the program runs on. A reader takes a prefix and returns the rest. -/

namespace SomniumDB.Bytes

def littleEndian : Nat → Nat → Bytes
  | 0, _ => []
  | width + 1, value => UInt8.ofNat (value % 256) :: littleEndian width (value / 256)

def readLittleEndian : Nat → Bytes → Option (Nat × Bytes)
  | 0, rest => some (0, rest)
  | _ + 1, [] => none
  | width + 1, byte :: rest =>
      (readLittleEndian width rest).map fun read => (byte.toNat + 256 * read.1, read.2)

/-- A signed 64-bit number as the unsigned one with the same bits. -/
def unsigned (number : Int) : Nat :=
  (number % 2 ^ 64).toNat

def signed (number : Nat) : Int :=
  if number < 2 ^ 63 then number else number - 2 ^ 64

/-- The next `count` bytes, if there are so many. -/
def readBytes (count : Nat) (data : Bytes) : Option (Bytes × Bytes) :=
  if count ≤ data.length then some (data.take count, data.drop count) else none

@[simp] theorem length_littleEndian (width value : Nat) :
    (littleEndian width value).length = width := by
  induction width generalizing value with
  | zero => rfl
  | succ width induction => simp [littleEndian, induction]

theorem readLittleEndian_append {width value : Nat} (small : value < 256 ^ width)
    (rest : Bytes) :
    readLittleEndian width (littleEndian width value ++ rest) = some (value, rest) := by
  induction width generalizing value with
  | zero =>
      obtain rfl : value = 0 := by simpa using small
      rfl
  | succ width induction =>
      have quotient : value / 256 < 256 ^ width := by
        apply Nat.div_lt_of_lt_mul
        rw [Nat.pow_succ] at small
        linarith
      have digit : (UInt8.ofNat (value % 256)).toNat = value % 256 := by
        simp
      have whole : value % 256 + 256 * (value / 256) = value := Nat.mod_add_div value 256
      simp only [littleEndian, List.cons_append, readLittleEndian, induction quotient,
        Option.map_some, digit, whole]

theorem signed_unsigned {number : Int} (low : -2 ^ 63 ≤ number) (high : number < 2 ^ 63) :
    signed (unsigned number) = number := by
  unfold signed unsigned
  by_cases positive : (number % 2 ^ 64).toNat < 2 ^ 63
  · rw [if_pos positive]
    omega
  · rw [if_neg positive]
    omega

theorem unsigned_lt (number : Int) : unsigned number < 256 ^ 8 := by
  unfold unsigned
  omega

theorem readBytes_append (front rest : Bytes) :
    readBytes front.length (front ++ rest) = some (front, rest) := by
  simp [readBytes]

end SomniumDB.Bytes
