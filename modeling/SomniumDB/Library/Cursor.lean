import SomniumDB.Library.LittleEndian

/-! # Reading a buffer at an offset

A buffer is read at an offset that is a machine word. Each read is guarded by a
comparison with the bytes that are left, computed in machine words too. Here a read
outside the buffer is an outcome of its own, so that its absence can be proved: a reader
that agrees with one which consumes a list cannot have it. -/

namespace SomniumDB

/-- How reading a buffer ends without a result. -/
inductive Stop
  /-- A check of the reader fails. -/
  | corrupt
  /-- A byte outside the buffer is read. -/
  | outside
  /-- The reader does not come to an end. -/
  | unending
  deriving DecidableEq, Repr

namespace Cursor

open Bytes

def wordSize : Nat := 2 ^ 64

/-- Whether `count` bytes are left after the offset. -/
def need (data : Bytes) (off count : Nat) : Bool :=
  decide (count ≤ (data.length + wordSize - off) % wordSize)

/-- `memcpy` out of the buffer. -/
def copy (data : Bytes) (off count : Nat) : Except Stop Bytes :=
  if off + count ≤ data.length then .ok ((data.drop off).take count) else .error .outside

/-- A guarded read, and the offset behind it. -/
def take (data : Bytes) (count off : Nat) : Except Stop (Bytes × Nat) :=
  if need data off count then
    (copy data off count).map fun bytes => (bytes, (off + count) % wordSize)
  else .error .corrupt

/-- The number that the first bytes hold. -/
def value (width : Nat) (bytes : Bytes) : Nat :=
  ((readLittleEndian width bytes).map Prod.fst).getD 0

def number (data : Bytes) (width off : Nat) : Except Stop (Nat × Nat) :=
  (take data width off).map fun read => (value width read.1, read.2)

/-- A read at an offset does what the reader of a list does on the rest of the buffer. -/
def Follows (data : Bytes) (result : Except Stop (α × Nat)) : Option (α × Bytes) → Prop
  | none => result = .error .corrupt
  | some (value, rest) => ∃ off, result = .ok (value, off) ∧ off ≤ data.length ∧
      rest = data.drop off

variable {data : Bytes}

theorem need_iff (small : data.length < wordSize) {off : Nat} (inside : off ≤ data.length)
    (count : Nat) : need data off count = true ↔ count ≤ (data.drop off).length := by
  have left : (data.length + wordSize - off) % wordSize = data.length - off := by
    have shifted : data.length + wordSize - off = (data.length - off) + wordSize := by
      omega
    rw [shifted, Nat.add_mod_right]
    exact Nat.mod_eq_of_lt (by omega)
  rw [need, decide_eq_true_iff, left, List.length_drop]

theorem follows_take (small : data.length < wordSize) {off : Nat} (inside : off ≤ data.length)
    (count : Nat) : Follows data (take data count off) (readBytes count (data.drop off)) := by
  unfold take readBytes
  by_cases enough : count ≤ (data.drop off).length
  · rw [if_pos ((need_iff small inside count).mpr enough), if_pos enough]
    rw [List.length_drop] at enough
    have fits : off + count ≤ data.length := by
      omega
    refine ⟨off + count, ?_, fits, ?_⟩
    · rw [copy, if_pos fits, Nat.mod_eq_of_lt (by omega)]
      rfl
    · rw [List.drop_drop]
  · rw [if_neg fun checked => enough ((need_iff small inside count).mp checked), if_neg enough]
    rfl

/-- The value of a number depends on its own bytes only. -/
theorem readLittleEndian_split (width : Nat) (rest : Bytes) :
    readLittleEndian width rest = (readBytes width rest).map fun read =>
      (value width read.1, read.2) := by
  unfold readBytes value
  induction width generalizing rest with
  | zero => rfl
  | succ width induction =>
      cases rest with
      | nil => rfl
      | cons byte rest =>
          have later := induction rest
          by_cases enough : width ≤ rest.length
          · rw [if_pos enough, Option.map_some] at later
            rw [if_pos (by simpa using enough), Option.map_some, List.take_succ_cons,
              List.drop_succ_cons, readLittleEndian, later]
            cases own : readLittleEndian width (rest.take width) with
            | none =>
                have again := induction (rest.take width)
                rw [own, if_pos (by simpa using enough)] at again
                cases again
            | some value =>
                rw [readLittleEndian, own]
                rfl
          · rw [if_neg enough, Option.map_none] at later
            rw [if_neg (by simpa using enough), readLittleEndian, later]
            rfl

theorem follows_number (small : data.length < wordSize) {off : Nat} (inside : off ≤ data.length)
    (width : Nat) :
    Follows data (number data width off) (readLittleEndian width (data.drop off)) := by
  have taken := follows_take small inside width
  rw [readLittleEndian_split]
  unfold number
  cases read : readBytes width (data.drop off) with
  | none =>
      rw [read] at taken
      change take data width off = _ at taken
      rw [taken]
      rfl
  | some pair =>
      rw [read] at taken
      rcases taken with ⟨after, result, bound, rest⟩
      rw [result]
      exact ⟨after, rfl, bound, rest⟩

/-- Reads in a row. -/
theorem Follows.bind {result : Except Stop (α × Nat)} {parsed : Option (α × Bytes)}
    (follows : Follows data result parsed) {next : α × Nat → Except Stop (β × Nat)}
    {parse : α × Bytes → Option (β × Bytes)}
    (continues : ∀ value off, off ≤ data.length →
      Follows data (next (value, off)) (parse (value, data.drop off))) :
    Follows data (result >>= next) (parsed >>= parse) := by
  cases parsed with
  | none =>
      change result = _ at follows
      rw [follows]
      rfl
  | some pair =>
      rcases pair with ⟨value, rest⟩
      rcases follows with ⟨off, ended, inside, left⟩
      subst left
      rw [ended]
      exact continues value off inside

theorem Follows.pure (value : α) {off : Nat} (inside : off ≤ data.length) :
    Follows data (.ok (value, off)) (some (value, data.drop off)) :=
  ⟨off, rfl, inside, rfl⟩

end Cursor

end SomniumDB
