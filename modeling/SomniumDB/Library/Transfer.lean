import SomniumDB.Library.Bytes

/-! # Complete transfers

A call of `write` or `read` may move fewer bytes than it is asked to, or be interrupted.
A complete transfer repeats the call until everything has been moved or a call fails; what
was moved before the failure stays moved. -/

namespace SomniumDB

/-- How one call ends. It moves at most what it is asked to; nothing moved is a failure. -/
inductive Transfer
  | moved (count : Nat)
  | interrupted
  | failed
  deriving DecidableEq, Repr

/-- What a complete transfer leaves: the bytes that were moved, whether these are all, and
the outcomes of the calls that come later. -/
structure Moved where
  bytes : Bytes
  done : Bool
  later : List Transfer

namespace Transfer

/-- The loop; when no outcome is given the call moves everything. -/
def complete : List Transfer → Bytes → Moved
  | [], data => { bytes := data, done := true, later := [] }
  | call :: rest, data =>
      if data = [] then { bytes := [], done := true, later := call :: rest }
      else
        match call with
        | .moved count =>
            if count = 0 then { bytes := [], done := false, later := rest }
            else
              let more := complete rest (data.drop count)
              { more with bytes := data.take count ++ more.bytes }
        | .interrupted => complete rest data
        | .failed => { bytes := [], done := false, later := rest }

/-- What is moved is the front of the data. -/
theorem complete_front (calls : List Transfer) (data : Bytes) :
    ∃ rest, data = (complete calls data).bytes ++ rest ∧
      ((complete calls data).done = true → rest = []) := by
  induction calls generalizing data with
  | nil => exact ⟨[], (List.append_nil data).symm, fun _ => rfl⟩
  | cons call calls induction =>
      unfold complete
      by_cases empty : data = []
      · rw [if_pos empty]
        subst empty
        exact ⟨[], rfl, fun _ => rfl⟩
      · rw [if_neg empty]
        cases call with
        | moved count =>
            dsimp only
            by_cases zero : count = 0
            · rw [if_pos zero]
              exact ⟨data, rfl, fun done => by cases done⟩
            · rw [if_neg zero]
              rcases induction (data.drop count) with ⟨rest, moved, whole⟩
              refine ⟨rest, ?_, whole⟩
              dsimp only
              rw [List.append_assoc, ← moved, List.take_append_drop]
        | interrupted => exact induction data
        | failed => exact ⟨data, rfl, fun done => by cases done⟩

theorem complete_done {calls : List Transfer} {data : Bytes}
    (done : (complete calls data).done = true) : (complete calls data).bytes = data := by
  rcases complete_front calls data with ⟨rest, moved, whole⟩
  rw [whole done, List.append_nil] at moved
  exact moved.symm

/-! ## Files at an offset -/

/-- The bytes of a file from an offset on, as many as there are. -/
def readAt (file : Bytes) (off count : Nat) : Bytes :=
  (file.drop off).take count

/-- A file after bytes have been written at an offset; a gap is filled with zeros. -/
def writeAt (file : Bytes) (off : Nat) (bytes : Bytes) : Bytes :=
  file.take off ++ List.replicate (off - file.length) 0 ++ bytes ++ file.drop (off + bytes.length)

/-- A complete read at an offset; none when it fails or the file ends before. -/
def pread (file : Bytes) (calls : List Transfer) (off count : Nat) : Option Bytes :=
  let moved := complete calls (readAt file off count)
  if moved.done ∧ moved.bytes.length = count then some moved.bytes else none

theorem pread_some {file : Bytes} {calls : List Transfer} {off count : Nat} {bytes : Bytes}
    (read : pread file calls off count = some bytes) : bytes = readAt file off count := by
  unfold pread at read
  dsimp only at read
  by_cases whole : (complete calls (readAt file off count)).done = true ∧
      List.length (complete calls (readAt file off count)).bytes = count
  · rw [if_pos whole] at read
    cases read
    exact complete_done whole.1
  · rw [if_neg whole] at read
    cases read

theorem take_writeAt {file : Bytes} {off : Nat} (inside : off ≤ file.length) (bytes : Bytes) :
    (writeAt file off bytes).take off = file.take off := by
  unfold writeAt
  have filled : off - file.length = 0 := by
    omega
  have front : (file.take off).length = off := List.length_take_of_le inside
  rw [filled, List.replicate_zero, List.append_nil, List.append_assoc,
    List.take_append_of_le_length (by omega), List.take_of_length_le (by omega)]

theorem length_writeAt {file : Bytes} {off : Nat} (inside : off ≤ file.length) (bytes : Bytes) :
    off + bytes.length ≤ (writeAt file off bytes).length := by
  unfold writeAt
  simp only [List.length_append, List.length_take, List.length_replicate, List.length_drop]
  omega

/-- What lies before the offset is not touched. -/
theorem readAt_writeAt_before {file : Bytes} {start : Nat} (inside : start ≤ file.length)
    (bytes : Bytes) {off count : Nat} (before : off + count ≤ start) :
    readAt (writeAt file start bytes) off count = readAt file off count := by
  have cut : ∀ content : Bytes, readAt content off count =
      readAt (content.take start) off count := by
    intro content
    unfold readAt
    rw [List.drop_take, List.take_take, Nat.min_eq_left (by omega)]
  rw [cut, take_writeAt inside, ← cut]

theorem readAt_writeAt_self {file : Bytes} {off : Nat} (inside : off ≤ file.length)
    (bytes : Bytes) : readAt (writeAt file off bytes) off bytes.length = bytes := by
  unfold readAt writeAt
  have filled : off - file.length = 0 := by
    omega
  have front : (file.take off).length = off := List.length_take_of_le inside
  rw [filled, List.replicate_zero, List.append_nil, List.append_assoc]
  rw [List.drop_left' front, List.take_left]

end Transfer

end SomniumDB
