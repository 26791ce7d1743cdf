import SomniumDB.Core.Hlc
import SomniumDB.Storage.FsUtil

/-! # The clock in 64-bit words

The versions that the clock gives as the source computes them, and when these are the ones
that it gives without a bound. -/

namespace SomniumDB.Hlc

open FsUtil

/-- `Clock::next`, the shift and the increments made on 64-bit words. -/
def nextWord (last now overwritten : Nat) : Nat :=
  max (now * 2 ^ 16 % 2 ^ 64) (max ((last + 1) % 2 ^ 64) ((overwritten + 1) % 2 ^ 64))

/-- The clock reading has room for the counter below it, and what is incremented is not the
greatest word. -/
structure Fits (last now overwritten : Nat) : Prop where
  now : now < 2 ^ 48
  last : last < uint64Max
  overwritten : overwritten < uint64Max

instance (last now overwritten : Nat) : Decidable (Fits last now overwritten) :=
  decidable_of_iff (now < 2 ^ 48 ∧ last < uint64Max ∧ overwritten < uint64Max)
    ⟨fun fits => ⟨fits.1, fits.2.1, fits.2.2⟩, fun fits => ⟨fits.now, fits.last, fits.overwritten⟩⟩

theorem nextWord_le (last now overwritten : Nat) : nextWord last now overwritten ≤ uint64Max := by
  have words : ∀ number : Nat, number % 2 ^ 64 ≤ uint64Max := by
    intro number
    have small := Nat.mod_lt number (Nat.two_pow_pos 64)
    unfold uint64Max
    omega
  exact max_le (words _) (max_le (words _) (words _))

theorem nextWord_eq_next_iff (last now overwritten : Nat) :
    nextWord last now overwritten = next last now overwritten ↔ Fits last now overwritten := by
  constructor
  · intro same
    have bound := nextWord_le last now overwritten
    rw [same] at bound
    unfold next uint64Max at bound
    refine ⟨?_, ?_, ?_⟩
    · omega
    · unfold uint64Max
      omega
    · unfold uint64Max
      omega
  · rintro ⟨small, belowLast, belowOverwritten⟩
    unfold uint64Max at belowLast belowOverwritten
    unfold nextWord next
    rw [Nat.mod_eq_of_lt (by omega), Nat.mod_eq_of_lt (by omega), Nat.mod_eq_of_lt (by omega)]

end SomniumDB.Hlc
