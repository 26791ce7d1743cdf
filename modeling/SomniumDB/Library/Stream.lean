import Mathlib.Data.List.Basic

/-! # Reading items from a stream that arrives in pieces

A reader takes one item from the front of a buffer, asks for more, or finds that the
buffer cannot be read. When what it decides does not change as the buffer grows, the
items of a stream do not depend on the pieces in which it arrives, nor on how many items
are taken in one go. -/

namespace SomniumDB.Stream

variable {β : Type u} {α : Type v}

/-- What a reader finds at the front of a buffer. -/
inductive Read (α : Type v)
  | item (value : α) (used : Nat)
  | more
  | bad

/-- A reader whose decisions last. -/
structure Reader (β : Type u) (α : Type v) where
  read : List β → Read α
  used_pos : ∀ {input value used}, read input = .item value used → 0 < used
  used_le : ∀ {input value used}, read input = .item value used → used ≤ input.length
  item_append : ∀ {input value used} (later : List β), read input = .item value used →
    read (input ++ later) = .item value used
  bad_append : ∀ {input} (later : List β), read input = .bad → read (input ++ later) = .bad

/-- Why no more items are taken: the rest is not enough (or none is wanted), it cannot be
read, or the item that ends the stream has been read. -/
inductive Ending
  | waiting
  | bad
  | last
  deriving DecidableEq, Repr

/-- The items taken from a buffer, and what is left of it. -/
structure Items (β : Type u) (α : Type v) where
  values : List α := []
  ending : Ending
  rest : List β

def Items.prepend (values : List α) (taken : Items β α) : Items β α :=
  { taken with values := values ++ taken.values }

/-- More input arrives: unless the stream has ended, the items of what follows come after
those already taken. -/
def Items.resume (taken : Items β α) (later : List β) (next : List β → Items β α) :
    Items β α :=
  match taken.ending with
  | .waiting => (next (taken.rest ++ later)).prepend taken.values
  | _ => { taken with rest := taken.rest ++ later }

@[simp] theorem Items.prepend_nil (taken : Items β α) : taken.prepend [] = taken := rfl

theorem Items.prepend_prepend (front values : List α) (taken : Items β α) :
    (taken.prepend values).prepend front = taken.prepend (front ++ values) := by
  unfold prepend
  rw [List.append_assoc]

theorem Items.prepend_resume (values : List α) (taken : Items β α) (later : List β)
    (next : List β → Items β α) :
    (taken.prepend values).resume later next = (taken.resume later next).prepend values := by
  rcases taken with ⟨found, ending, rest⟩
  cases ending with
  | waiting => exact (Items.prepend_prepend values found _).symm
  | bad => rfl
  | last => rfl

namespace Reader

variable (reader : Reader β α) (last : α → Bool)

/-- At most `count` items. -/
def take : Nat → List β → Items β α
  | 0, input => { ending := .waiting, rest := input }
  | count + 1, input =>
      match reader.read input with
      | .more => { ending := .waiting, rest := input }
      | .bad => { ending := .bad, rest := input }
      | .item value used =>
          if last value then { ending := .last, rest := input.drop used }
          else (take count (input.drop used)).prepend [value]

/-- All items: every one uses something, so that there are at most as many as the buffer
is long. -/
def all (input : List β) : Items β α :=
  reader.take last (input.length + 1) input

theorem take_enough {first second : Nat} {input : List β} (left : input.length < first)
    (right : input.length < second) :
    reader.take last first input = reader.take last second input := by
  induction first generalizing second input with
  | zero => exact absurd left (Nat.not_lt_zero _)
  | succ first induction =>
      obtain ⟨second, rfl⟩ : ∃ less, second = less + 1 :=
        ⟨second - 1, by omega⟩
      unfold take
      cases found : reader.read input with
      | more => rfl
      | bad => rfl
      | item value used =>
          have positive := reader.used_pos found
          have small := reader.used_le found
          have shorter : (input.drop used).length = input.length - used := List.length_drop
          have same : reader.take last first (input.drop used) =
              reader.take last second (input.drop used) := induction (by omega) (by omega)
          dsimp only
          rw [same]

theorem all_of_item {input : List β} {value : α} {used : Nat}
    (found : reader.read input = .item value used) (goes : last value = false) :
    reader.all last input = (reader.all last (input.drop used)).prepend [value] := by
  have positive := reader.used_pos found
  have small := reader.used_le found
  have shorter : (input.drop used).length = input.length - used := List.length_drop
  unfold all
  rw [take, found]
  dsimp only
  rw [if_neg (by rw [goes]; decide), reader.take_enough last (by omega) (Nat.lt_succ_self _)]

theorem all_of_last {input : List β} {value : α} {used : Nat}
    (found : reader.read input = .item value used) (ends : last value = true) :
    reader.all last input = { ending := .last, rest := input.drop used } := by
  unfold all
  rw [take, found]
  dsimp only
  rw [if_pos ends]

theorem all_of_more {input : List β} (found : reader.read input = .more) :
    reader.all last input = { ending := .waiting, rest := input } := by
  unfold all
  rw [take, found]

theorem all_of_bad {input : List β} (found : reader.read input = .bad) :
    reader.all last input = { ending := .bad, rest := input } := by
  unfold all
  rw [take, found]

/-- What arrives later adds to the items, unless the stream has ended. -/
theorem all_append (input later : List β) :
    reader.all last (input ++ later) =
      (reader.all last input).resume later (reader.all last) := by
  induction size : input.length using Nat.strongRecOn generalizing input with
  | _ length induction =>
      cases found : reader.read input with
      | more =>
          rw [reader.all_of_more last found]
          exact (Items.prepend_nil _).symm
      | bad =>
          rw [reader.all_of_bad last found, reader.all_of_bad last (reader.bad_append later found)]
          rfl
      | item value used =>
          have grown := reader.item_append later found
          have positive := reader.used_pos found
          have small := reader.used_le found
          have dropped : (input ++ later).drop used = input.drop used ++ later :=
            List.drop_append_of_le_length small
          cases ends : last value with
          | true =>
              rw [reader.all_of_last last found ends, reader.all_of_last last grown ends, dropped]
              rfl
          | false =>
              have shorter : (input.drop used).length < length := by
                rw [List.length_drop]
                omega
              rw [reader.all_of_item last found ends, reader.all_of_item last grown ends, dropped,
                induction _ shorter (input.drop used) rfl, Items.prepend_resume]

end Reader

end SomniumDB.Stream
