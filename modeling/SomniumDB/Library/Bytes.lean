import Mathlib.Data.Nat.Digits.Defs

/-! # Byte strings

Byte strings as lists of bytes, the ASCII literals and letter case used by
text protocols, and decimal numerals with a reader that accumulates from the
left under an upper bound. -/

namespace SomniumDB

abbrev Bytes := List UInt8

namespace Bytes

/-- The bytes of a literal; every literal in this development is ASCII. -/
def ascii (text : String) : Bytes :=
  text.toList.map fun letter => letter.toNat.toUInt8

def upperByte (byte : UInt8) : UInt8 :=
  if 97 ≤ byte ∧ byte ≤ 122 then byte - 32 else byte

/-- `toupper` in the C locale, byte by byte. -/
def upper (text : Bytes) : Bytes :=
  text.map upperByte

/-! ## Decimal numerals -/

def digitByte (digit : Nat) : UInt8 :=
  UInt8.ofNat (48 + digit)

/-- The decimal numeral of a natural number, without leading zeros. -/
def decimal (number : Nat) : Bytes :=
  if number = 0 then [48] else ((Nat.digits 10 number).reverse).map digitByte

/-- The decimal numeral of an integer. -/
def decimalInt (number : Int) : Bytes :=
  if number < 0 then 45 :: decimal number.natAbs else decimal number.natAbs

/-- Read a numeral from the left, refusing any value above `max`. -/
def readDecimal (max : Nat) : Nat → Bytes → Option Nat
  | value, [] => some value
  | value, byte :: rest =>
      if byte < 48 ∨ 57 < byte then none
      else
        let digit := byte.toNat - 48
        if (max - digit) / 10 < value then none
        else readDecimal max (value * 10 + digit) rest

theorem digitByte_toNat {digit : Nat} (small : digit < 10) :
    (digitByte digit).toNat = 48 + digit := by
  simp only [digitByte, UInt8.toNat_ofNat']
  omega

theorem digitByte_isDigit {digit : Nat} (small : digit < 10) :
    ¬ (digitByte digit < 48 ∨ 57 < digitByte digit) := by
  have value := digitByte_toNat small
  simp only [UInt8.lt_iff_toNat_lt, value]
  simp
  omega

theorem readDecimal_append (max : Nat) (front back : Bytes) (value : Nat) :
    readDecimal max value (front ++ back) =
      (readDecimal max value front).bind fun reached =>
        readDecimal max reached back := by
  induction front generalizing value with
  | nil => rfl
  | cons byte rest induction =>
      simp only [List.cons_append, readDecimal]
      by_cases less : byte < 48 ∨ 57 < byte
      · simp only [if_pos less]
        rfl
      · simp only [if_neg less]
        by_cases overflows : (max - (byte.toNat - 48)) / 10 < value
        · simp only [if_pos overflows]
          rfl
        · simp only [if_neg overflows]
          exact induction _

/-- Reading the most significant digit first recovers the number written. -/
theorem readDecimal_digits (max : Nat) (digits : List Nat)
    (small : ∀ digit ∈ digits, digit < 10)
    (bounded : Nat.ofDigits 10 digits ≤ max) :
    readDecimal max 0 (digits.reverse.map digitByte) =
      some (Nat.ofDigits 10 digits) := by
  induction digits with
  | nil => rfl
  | cons digit higher induction =>
      have digitSmall : digit < 10 := small digit List.mem_cons_self
      rw [Nat.ofDigits_cons] at bounded ⊢
      have higherRead := induction
        (fun other member => small other (List.mem_cons_of_mem _ member)) (by omega)
      rw [List.reverse_cons, List.map_append, readDecimal_append, higherRead]
      have fits : ¬ (max - digit) / 10 < Nat.ofDigits 10 higher := by omega
      simp only [Option.bind_some, List.map_cons, List.map_nil, readDecimal,
        if_neg (digitByte_isDigit digitSmall), digitByte_toNat digitSmall,
        Nat.add_sub_cancel_left, if_neg fits]
      rw [Nat.mul_comm, Nat.add_comm]

theorem readDecimal_decimal (max number : Nat) (bounded : number ≤ max) :
    readDecimal max 0 (decimal number) = some number := by
  unfold decimal
  by_cases zero : number = 0
  · rw [if_pos zero]
    subst zero
    rfl
  · rw [if_neg zero]
    have digits := readDecimal_digits max (Nat.digits 10 number)
      (fun digit member => Nat.digits_lt_base (by omega) member)
      (by rw [Nat.ofDigits_digits]; exact bounded)
    rwa [Nat.ofDigits_digits] at digits

theorem decimal_injective : Function.Injective decimal := by
  intro left right same
  have readLeft := readDecimal_decimal (max left right) left (le_max_left _ _)
  have readRight := readDecimal_decimal (max left right) right (le_max_right _ _)
  rw [same, readRight] at readLeft
  exact (Option.some.inj readLeft).symm

theorem decimal_ne_nil (number : Nat) : decimal number ≠ [] := by
  unfold decimal
  by_cases zero : number = 0
  · rw [if_pos zero]
    simp
  · rw [if_neg zero]
    simpa using Nat.digits_ne_nil_iff_ne_zero.mpr zero

/-- A numeral consists of digits only. -/
theorem decimal_digits (number : Nat) :
    ∀ byte ∈ decimal number, 48 ≤ byte ∧ byte ≤ 57 := by
  intro byte member
  unfold decimal at member
  by_cases zero : number = 0
  · rw [if_pos zero] at member
    simp only [List.mem_singleton] at member
    subst member
    decide
  · rw [if_neg zero] at member
    rcases List.mem_map.mp member with ⟨digit, inDigits, rfl⟩
    have small : digit < 10 :=
      Nat.digits_lt_base (by omega) (List.mem_reverse.mp inDigits)
    have isDigit := digitByte_isDigit small
    rw [not_or, UInt8.not_lt, UInt8.not_lt] at isDigit
    exact isDigit

/-! ## Pieces of a text -/

/-- A text of two parts that is cut somewhere: within the first part, or in the
second one. -/
theorem cut_cases {line tail part rest : Bytes} (whole : line ++ tail = part ++ rest) :
    (∃ missing, missing ≠ [] ∧ line = part ++ missing) ∨
      ∃ more, part = line ++ more ∧ tail = more ++ rest := by
  rcases List.append_eq_append_iff.mp whole with inTail | ⟨missing, lineEq, restEq⟩
  · exact .inr inTail
  · by_cases nothing : missing = []
    · subst nothing
      exact .inr ⟨[], by simpa using lineEq.symm, by simpa using restEq.symm⟩
    · exact .inl ⟨missing, nothing, lineEq⟩

/-- What reading a text piece by piece returns, `size` bytes at a time; the
length of the text bounds the number of pieces. -/
def piecesOf (size : Nat) : Nat → Bytes → List Bytes
  | 0, _ => []
  | _ + 1, [] => []
  | count + 1, text => text.take size :: piecesOf size count (text.drop size)

def pieces (size : Nat) (text : Bytes) : List Bytes :=
  piecesOf size text.length text

theorem piecesOf_spec {size count : Nat} (positive : 0 < size) {text : Bytes}
    (enough : text.length ≤ count) :
    (piecesOf size count text).flatten = text ∧
      ∀ piece ∈ piecesOf size count text, piece ≠ [] := by
  induction count generalizing text with
  | zero =>
      rcases List.length_eq_zero_iff.mp (Nat.le_zero.mp enough) with rfl
      exact ⟨rfl, by simp [piecesOf]⟩
  | succ count induction =>
      cases text with
      | nil => exact ⟨rfl, by simp [piecesOf]⟩
      | cons byte rest =>
          have shorter : ((byte :: rest).drop size).length ≤ count := by
            rw [List.length_drop]
            omega
          rcases induction shorter with ⟨joined, filled⟩
          refine ⟨?_, ?_⟩
          · rw [piecesOf, List.flatten_cons, joined, List.take_append_drop]
            simp
          · rw [piecesOf]
            · intro piece member
              rcases List.mem_cons.mp member with rfl | later
              · rcases Nat.exists_eq_succ_of_ne_zero positive.ne' with ⟨less, rfl⟩
                simp
              · exact filled piece later
            · simp

theorem flatten_pieces {size : Nat} (positive : 0 < size) (text : Bytes) :
    (pieces size text).flatten = text :=
  (piecesOf_spec positive le_rfl).1

theorem pieces_ne_nil {size : Nat} (positive : 0 < size) (text : Bytes) :
    ∀ piece ∈ pieces size text, piece ≠ [] :=
  (piecesOf_spec positive le_rfl).2

end Bytes

end SomniumDB
