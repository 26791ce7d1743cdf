import SomniumDB.Storage.NumberWords

/-! # The numeric readers are exact

What `parse_u64` and `parse_i64` accept is described by the value of the digits. -/

namespace SomniumDB.FsUtil

open Bytes

theorem parseU64_eq_some_iff (text : Bytes) (number : Nat) :
    parseU64 text = some number ↔
      IsNumeral text ∧ numeralValue text = number ∧ number < 2 ^ 64 := by
  have bound : number < 2 ^ 64 ↔ number ≤ uint64Max := by
    unfold uint64Max
    omega
  rw [bound, parseU64]
  by_cases empty : text = []
  · rw [if_pos empty]
    exact iff_of_false (fun read => by cases read) fun accepted => accepted.1.nonempty empty
  · rw [if_neg empty]
    rw [readDecimal_eq_some_iff (by decide) (Nat.zero_le _), Nat.zero_mul, Nat.zero_add]
    exact and_congr_left fun _ => ⟨fun digits => ⟨empty, digits⟩, IsNumeral.digits⟩

/-- What a signed number is written as: digits, behind a minus sign or not. -/
def IsSigned (text : Bytes) (number : Int) : Prop :=
  (IsNumeral text ∧ number = numeralValue text) ∨
    ∃ digits, text = 45 :: digits ∧ IsNumeral digits ∧ number = -(numeralValue digits : Int)

theorem parseU64_of_numeral {text : Bytes} (numeral : IsNumeral text)
    (small : numeralValue text < 2 ^ 64) : parseU64 text = some (numeralValue text) :=
  (parseU64_eq_some_iff text _).mpr ⟨numeral, rfl, small⟩

theorem parseI64_eq_some_iff (text : Bytes) (number : Int) :
    parseI64 text = some number ↔
      IsSigned text number ∧ llongMin ≤ number ∧ number ≤ llongMax := by
  have bounds : llongMin = -(2 ^ 63) ∧ llongMax = 2 ^ 63 - 1 := ⟨rfl, rfl⟩
  by_cases minus : text.head? = some 45
  · obtain ⟨digits, rfl⟩ : ∃ digits, text = 45 :: digits := List.head?_eq_some_iff.mp minus
    have signed : IsSigned (45 :: digits) number ↔
        IsNumeral digits ∧ number = -(numeralValue digits : Int) := by
      refine ⟨?_, fun written => .inr ⟨digits, rfl, written⟩⟩
      rintro (⟨numeral, -⟩ | ⟨others, same, written⟩)
      · exact absurd minus numeral.head_ne_minus
      · cases same
        exact written
    unfold parseI64
    simp only [if_pos minus, List.tail_cons, signed]
    cases parsed : parseU64 digits with
    | none =>
        refine iff_of_false (fun read => by cases read) fun accepted => ?_
        rcases accepted with ⟨⟨numeral, rfl⟩, low, -⟩
        rw [parseU64_of_numeral numeral (by omega)] at parsed
        cases parsed
    | some magnitude =>
        rcases (parseU64_eq_some_iff digits magnitude).mp parsed with ⟨numeral, worth, -⟩
        rw [worth, and_iff_right numeral]
        dsimp only
        by_cases overflows : llongMax + 1 < ↑magnitude
        · rw [if_pos overflows]
          refine iff_of_false (fun read => by cases read) fun accepted => ?_
          omega
        · rw [if_neg overflows]
          rw [Option.some_inj]
          omega
  · have signed : IsSigned text number ↔ IsNumeral text ∧ number = numeralValue text := by
      refine ⟨?_, .inl⟩
      rintro (written | ⟨digits, rfl, -⟩)
      · exact written
      · exact absurd rfl minus
    unfold parseI64
    simp only [if_neg minus, signed]
    cases parsed : parseU64 text with
    | none =>
        refine iff_of_false (fun read => by cases read) fun accepted => ?_
        rcases accepted with ⟨⟨numeral, rfl⟩, -, high⟩
        rw [parseU64_of_numeral numeral (by omega)] at parsed
        cases parsed
    | some magnitude =>
        rcases (parseU64_eq_some_iff text magnitude).mp parsed with ⟨numeral, worth, -⟩
        rw [worth, and_iff_right numeral]
        dsimp only
        by_cases overflows : llongMax < ↑magnitude
        · rw [if_pos overflows]
          refine iff_of_false (fun read => by cases read) fun accepted => ?_
          omega
        · rw [if_neg overflows]
          rw [Option.some_inj]
          omega

/-- The readers accept exactly the numerals of the numbers of their types and return these
numbers, no operation on the way overflows, and each number is read back from the numeral
that it is written as. -/
theorem numbers_read_exactly :
    (∀ text number, parseU64 text = some number ↔
        IsNumeral text ∧ numeralValue text = number ∧ number < 2 ^ 64) ∧
      (∀ text number, parseI64 text = some number ↔
        IsSigned text number ∧ llongMin ≤ number ∧ number ≤ llongMax) ∧
      (∀ text, parseU64Words text = some ((parseU64 text).map Int.ofNat) ∧
        parseI64Words text = some (parseI64 text)) ∧
      (∀ number, number < 2 ^ 64 → parseU64 (decimal number) = some number) ∧
      ∀ number, llongMin ≤ number → number ≤ llongMax →
        parseI64 (decimalInt number) = some number := by
  refine ⟨parseU64_eq_some_iff, parseI64_eq_some_iff, ?_, ?_, parseI64_decimalInt⟩
  · exact fun text => ⟨parseU64Words_eq text, parseI64Words_eq text⟩
  · intro number small
    refine parseU64_decimal number ?_
    unfold uint64Max
    omega

/-- Leading zeros count for nothing, and the bounds are met exactly. -/
example :
    parseI64 (ascii "-9223372036854775808") = some llongMin ∧
      parseI64 (ascii "9223372036854775808") = none ∧
        parseU64 (ascii "000018446744073709551615") = some uint64Max ∧
          parseU64 (ascii "18446744073709551616") = none := by
  decide +kernel

end SomniumDB.FsUtil
