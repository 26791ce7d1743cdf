import Mathlib.Tactic.Ring
import SomniumDB.Library.Bytes

/-! # What a numeral is worth

The reader of numerals under a bound, described by the value of the digits: it accepts a
text of digits exactly when that value is within the bound, leading zeros included. -/

namespace SomniumDB.Bytes

def digitOf (byte : UInt8) : Nat :=
  byte.toNat - 48

/-- The value of a text of digits, the most significant first. -/
def numeralValue (text : Bytes) : Nat :=
  Nat.ofDigits 10 (text.reverse.map digitOf)

/-- A non-empty text of digits. -/
structure IsNumeral (text : Bytes) : Prop where
  nonempty : text ≠ []
  digits : ∀ byte ∈ text, 48 ≤ byte ∧ byte ≤ 57

theorem IsNumeral.head_ne_minus {text : Bytes} (numeral : IsNumeral text) :
    text.head? ≠ some 45 := by
  intro minus
  have digit := numeral.digits 45 (List.mem_of_mem_head? (Option.mem_def.mpr minus))
  exact absurd digit.1 (by decide)

theorem numeralValue_nil : numeralValue [] = 0 := rfl

theorem numeralValue_cons (byte : UInt8) (rest : Bytes) :
    numeralValue (byte :: rest) = digitOf byte * 10 ^ rest.length + numeralValue rest := by
  unfold numeralValue
  rw [List.reverse_cons, List.map_append, Nat.ofDigits_append, List.length_map,
    List.length_reverse, List.map_singleton, Nat.ofDigits_singleton]
  ring

theorem numeralValue_append (front back : Bytes) :
    numeralValue (front ++ back) = numeralValue front * 10 ^ back.length + numeralValue back := by
  induction front with
  | nil => rw [List.nil_append, numeralValue_nil, Nat.zero_mul, Nat.zero_add]
  | cons byte rest induction =>
      rw [List.cons_append, numeralValue_cons, numeralValue_cons, induction, List.length_append]
      ring

/-- The beginning of a numeral is worth no more. -/
theorem numeralValue_le_append (front back : Bytes) :
    numeralValue front ≤ numeralValue (front ++ back) := by
  rw [numeralValue_append]
  have positive : 0 < 10 ^ back.length := Nat.pow_pos (by decide)
  exact (Nat.le_mul_of_pos_right _ positive).trans (Nat.le_add_right _ _)

theorem digitOf_le {byte : UInt8} (isDigit : 48 ≤ byte ∧ byte ≤ 57) : digitOf byte ≤ 9 := by
  have high := isDigit.2
  rw [UInt8.le_iff_toNat_le] at high
  change byte.toNat ≤ 57 at high
  unfold digitOf
  omega

/-- The digits read so far, and those to come, give the value. -/
theorem readDecimal_eq_some_iff {max value result : Nat} {text : Bytes} (digit : 9 ≤ max)
    (start : value ≤ max) :
    readDecimal max value text = some result ↔
      (∀ byte ∈ text, 48 ≤ byte ∧ byte ≤ 57) ∧
        value * 10 ^ text.length + numeralValue text = result ∧ result ≤ max := by
  induction text generalizing value with
  | nil =>
      rw [readDecimal, Option.some_inj, numeralValue_nil]
      constructor
      · rintro rfl
        exact ⟨fun _ member => absurd member List.not_mem_nil, by simp, start⟩
      · rintro ⟨-, worth, -⟩
        simpa using worth
  | cons byte rest induction =>
      have digits : (∀ other ∈ byte :: rest, 48 ≤ other ∧ other ≤ 57) ↔
          (48 ≤ byte ∧ byte ≤ 57) ∧ ∀ other ∈ rest, 48 ≤ other ∧ other ≤ 57 :=
        List.forall_mem_cons
      have worth : value * 10 ^ (byte :: rest).length + numeralValue (byte :: rest) =
          (value * 10 + digitOf byte) * 10 ^ rest.length + numeralValue rest := by
        rw [numeralValue_cons, List.length_cons]
        ring
      rw [readDecimal, digits, worth]
      by_cases noDigit : byte < 48 ∨ 57 < byte
      · rw [if_pos noDigit]
        refine iff_of_false (fun read => by cases read) fun accepted => ?_
        rcases accepted.1.1 with ⟨low, high⟩
        rcases noDigit with less | more
        · exact absurd low (UInt8.not_le.mpr less)
        · exact absurd high (UInt8.not_le.mpr more)
      · rw [if_neg noDigit]
        rw [not_or, UInt8.not_lt, UInt8.not_lt] at noDigit
        have small := digitOf_le noDigit
        change (if (max - digitOf byte) / 10 < value then none
          else readDecimal max (value * 10 + digitOf byte) rest) = some result ↔ _
        split
        · -- the value of the whole is no less than that of the part
          rename_i large
          refine iff_of_false (fun read => by cases read) fun accepted => ?_
          rcases accepted with ⟨-, same, within⟩
          have weight : (value * 10 + digitOf byte) * 1 ≤
              (value * 10 + digitOf byte) * 10 ^ rest.length :=
            Nat.mul_le_mul_left _ (Nat.one_le_pow _ _ (by decide))
          omega
        · rename_i fits
          rw [induction (by omega), and_iff_right noDigit]

end SomniumDB.Bytes
