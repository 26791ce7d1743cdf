import Mathlib.Algebra.Ring.Nat
import Mathlib.Order.Basic

/-! # Hybrid logical clock (`hlc.h`)

A CRDT timestamp holds 48 bits of physical milliseconds above 16 bits of
logical counter. Timestamps are natural numbers here, and `next` does not wrap
around: what it gives is what the process draws as long as its operands leave
room in a word, which a wide `maxClockOffsetMs` does not ensure. -/

namespace SomniumDB.Hlc

/-- Below this a stored value is an old one, in milliseconds. -/
def kLegacyLimit : Nat := 2 ^ 47

def normalize (ts : Nat) : Nat :=
  if ts < kLegacyLimit then ts * 2 ^ 16 else ts

def physicalMs (ts : Nat) : Nat :=
  ts / 2 ^ 16

/-- `Clock::next`, given the last value of the clock: strictly above the clock
and above the version it overwrites. -/
def next (last now overwritten : Nat) : Nat :=
  max (now * 2 ^ 16) (max (last + 1) (overwritten + 1))

def observe (last ts : Nat) : Nat :=
  max last ts

theorem normalize_of_le {ts : Nat} (current : kLegacyLimit ≤ ts) :
    normalize ts = ts := by
  rw [normalize, if_neg (by omega)]

theorem le_normalize (ts : Nat) : ts ≤ normalize ts := by
  unfold normalize
  by_cases legacy : ts < kLegacyLimit
  · rw [if_pos legacy]
    omega
  · rw [if_neg legacy]

theorem normalize_eq_self_iff (ts : Nat) :
    normalize ts = ts ↔ ts = 0 ∨ kLegacyLimit ≤ ts := by
  unfold normalize
  by_cases legacy : ts < kLegacyLimit
  · rw [if_pos legacy]
    omega
  · rw [if_neg legacy]
    omega

theorem last_lt_next (last now overwritten : Nat) : last < next last now overwritten := by
  unfold next
  omega

theorem overwritten_lt_next (last now overwritten : Nat) :
    overwritten < next last now overwritten := by
  unfold next
  omega

theorem now_le_next (last now overwritten : Nat) :
    now * 2 ^ 16 ≤ next last now overwritten := by
  unfold next
  omega

end SomniumDB.Hlc
