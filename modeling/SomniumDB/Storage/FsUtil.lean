import SomniumDB.Library.Bytes

/-! # Strict numeric parsing (`fs_util.h`)

Only the two numeric readers of `fsutil` are modelled here. Every deadline,
timestamp and node id of the append-only file and of the replicated commands
goes through them. -/

namespace SomniumDB.FsUtil

open Bytes

def uint64Max : Nat := 2 ^ 64 - 1

def uint32Max : Nat := 2 ^ 32 - 1

def llongMax : Int := 2 ^ 63 - 1

def llongMin : Int := -(2 ^ 63)

/-- `parse_u64`: digits only, no sign, no overflow. -/
def parseU64 (text : Bytes) : Option Nat :=
  if text = [] then none else readDecimal uint64Max 0 text

/-- `parse_i64`: an optional minus sign and a magnitude within range. -/
def parseI64 (text : Bytes) : Option Int :=
  let negative := text.head? = some 45
  match parseU64 (if negative then text.tail else text) with
  | none => none
  | some magnitude =>
      if negative then
        if llongMax + 1 < (magnitude : Int) then none else some (-(magnitude : Int))
      else
        if llongMax < (magnitude : Int) then none else some (magnitude : Int)

theorem parseU64_decimal (number : Nat) (bounded : number ≤ uint64Max) :
    parseU64 (decimal number) = some number := by
  rw [parseU64, if_neg (decimal_ne_nil number)]
  exact readDecimal_decimal uint64Max number bounded

theorem readDecimal_le (max : Nat) (text : Bytes) (value result : Nat)
    (digit : 9 ≤ max) (start : value ≤ max)
    (read : readDecimal max value text = some result) : result ≤ max := by
  induction text generalizing value with
  | nil =>
      simp only [readDecimal, Option.some.injEq] at read
      omega
  | cons byte rest induction =>
      simp only [readDecimal] at read
      by_cases less : byte < 48 ∨ 57 < byte
      · rw [if_pos less] at read
        cases read
      · rw [if_neg less] at read
        by_cases overflows : (max - (byte.toNat - 48)) / 10 < value
        · rw [if_pos overflows] at read
          cases read
        · rw [if_neg overflows] at read
          rw [not_or, UInt8.not_lt, UInt8.not_lt, UInt8.le_iff_toNat_le,
            UInt8.le_iff_toNat_le] at less
          have low : 48 ≤ byte.toNat := by simpa using less.1
          have high : byte.toNat ≤ 57 := by simpa using less.2
          exact induction _ (by omega) read

theorem parseU64_le {text : Bytes} {number : Nat}
    (parsed : parseU64 text = some number) : number ≤ uint64Max := by
  unfold parseU64 at parsed
  by_cases empty : text = []
  · rw [if_pos empty] at parsed
    cases parsed
  · rw [if_neg empty] at parsed
    exact readDecimal_le uint64Max text 0 number (by decide) (Nat.zero_le _) parsed

theorem parseI64_le {text : Bytes} {number : Int}
    (parsed : parseI64 text = some number) : number ≤ llongMax := by
  have nonnegative : 0 ≤ llongMax := by decide
  unfold parseI64 at parsed
  dsimp only at parsed
  cases parsedHere : parseU64 (if text.head? = some 45 then List.tail text else text) with
  | none =>
      simp only [parsedHere] at parsed
      cases parsed
  | some magnitude =>
      simp only [parsedHere] at parsed
      by_cases same : text.head? = some 45
      · rw [if_pos same] at parsed
        by_cases overflows : llongMax + 1 < ↑magnitude
        · rw [if_pos overflows] at parsed
          cases parsed
        · rw [if_neg overflows] at parsed
          cases parsed
          omega
      · rw [if_neg same] at parsed
        by_cases overflows : llongMax < ↑magnitude
        · rw [if_pos overflows] at parsed
          cases parsed
        · rw [if_neg overflows] at parsed
          cases parsed
          omega

theorem decimal_head_ne_minus (number : Nat) :
    (decimal number).head? ≠ some 45 := by
  intro minus
  have member := List.mem_of_mem_head? (Option.mem_def.mpr minus)
  have digit := decimal_digits number 45 member
  exact absurd digit.1 (by decide)

/-- `parse_i64` inverts `std::to_string` on every `long long`. -/
theorem parseI64_decimalInt (number : Int) (low : llongMin ≤ number)
    (high : number ≤ llongMax) : parseI64 (decimalInt number) = some number := by
  have range : llongMin = -(2 ^ 63) ∧ llongMax = 2 ^ 63 - 1 := ⟨rfl, rfl⟩
  have magnitude := parseU64_decimal number.natAbs
    (by simp only [uint64Max]; omega)
  by_cases negative : number < 0
  · have numeral : decimalInt number = 45 :: decimal number.natAbs := if_pos negative
    rw [numeral, parseI64]
    simp only [List.head?_cons, if_true, List.tail_cons, magnitude]
    rw [if_neg (by omega)]
    congr 1
    omega
  · have numeral : decimalInt number = decimal number.natAbs := if_neg negative
    rw [numeral, parseI64]
    simp only [if_neg (decimal_head_ne_minus number.natAbs), magnitude]
    rw [if_neg (by omega)]
    congr 1
    omega

end SomniumDB.FsUtil
