import SomniumDB.Library.Checked
import SomniumDB.Library.Numeral
import SomniumDB.Storage.FsUtil

/-! # The numeric readers in machine words (`fs_util.h`)

The same readers, with every operation made in the type of the source. A result of `none`
would be an overflow; none occurs, and the results are those of `parse_u64` and
`parse_i64` on the integers. -/

namespace SomniumDB.FsUtil

open Bytes

def uint64 : Word :=
  ⟨0, uint64Max⟩

def longLong : Word :=
  ⟨llongMin, llongMax⟩

/-- The loop of `parse_u64`. The inner `none` is a refusal. -/
def parseDigits : Int → Bytes → Option (Option Int)
  | v, [] => some (some v)
  | v, c :: rest =>
      if c < 48 ∨ 57 < c then some none
      else do
        let d ← uint64.sub c.toNat 48
        let room ← uint64.sub uint64Max d
        let limit ← uint64.div room 10
        if limit < v then some none
        else
          let scaled ← uint64.mul v 10
          let next ← uint64.add scaled d
          parseDigits next rest

def parseU64Words (s : Bytes) : Option (Option Int) :=
  if s = [] then some none else parseDigits 0 s

def parseI64Words (s : Bytes) : Option (Option Int) := do
  let neg := s.head? = some 45
  match ← parseU64Words (if neg then s.tail else s) with
  | none => some none
  | some u =>
      if neg then
        let limit ← uint64.add llongMax 1
        if limit < u then some none
        else if u = limit then some (some llongMin)
        else
          let cast ← longLong.fit u
          let result ← longLong.neg cast
          some (some result)
      else if llongMax < u then some none
      else
        let result ← longLong.fit u
        some (some result)

/-! ## No operation overflows -/

theorem uint64_fit {value : Nat} (small : value ≤ uint64Max) : uint64.fit value = some (value : Int) :=
  Word.fit_of_holds (Int.natCast_nonneg value) (Int.ofNat_le.mpr small)

theorem parseDigits_eq {value : Nat} (small : value ≤ uint64Max) (text : Bytes) :
    parseDigits value text = some ((readDecimal uint64Max value text).map Int.ofNat) := by
  induction text generalizing value with
  | nil => rfl
  | cons c rest induction =>
      rw [parseDigits, readDecimal]
      by_cases noDigit : c < 48 ∨ 57 < c
      · simp only [if_pos noDigit]
        rfl
      · simp only [if_neg noDigit]
        rw [not_or, UInt8.not_lt, UInt8.not_lt] at noDigit
        have nine := digitOf_le noDigit
        have ten : 10 ≤ uint64Max := by decide
        have low := UInt8.le_iff_toNat_le.mp noDigit.1
        change 48 ≤ c.toNat at low
        have difference : (c.toNat : Int) - 48 = (digitOf c : Nat) := by
          unfold digitOf
          omega
        have d : uint64.sub c.toNat 48 = some (digitOf c : Int) := by
          unfold Word.sub
          rw [difference]
          exact uint64_fit (by omega)
        have room : uint64.sub uint64Max (digitOf c) =
            some ((uint64Max - digitOf c : Nat) : Int) := by
          unfold Word.sub
          rw [← Int.ofNat_sub (by omega)]
          exact uint64_fit (by omega)
        have limit : uint64.div ((uint64Max - digitOf c : Nat) : Int) 10 =
            some (((uint64Max - digitOf c) / 10 : Nat) : Int) := by
          unfold Word.div
          rw [if_neg (by decide)]
          have quotient := Int.ofNat_tdiv (uint64Max - digitOf c) 10
          have less := Nat.div_le_self (uint64Max - digitOf c) 10
          exact quotient ▸ uint64_fit (by omega)
        simp only [d, room, limit, Option.bind_eq_bind, Option.bind_some]
        change (if (((uint64Max - digitOf c) / 10 : Nat) : Int) < value then _ else _) =
          some ((if (uint64Max - digitOf c) / 10 < value then none
            else readDecimal uint64Max (value * 10 + digitOf c) rest).map Int.ofNat)
        by_cases large : (uint64Max - digitOf c) / 10 < value
        · rw [if_pos (Int.ofNat_lt.mpr large), if_pos large]
          rfl
        · have within : value * 10 + digitOf c ≤ uint64Max := by omega
          have scaled : uint64.mul value 10 = some ((value * 10 : Nat) : Int) :=
            @uint64_fit (value * 10) (by omega)
          have next : uint64.add ((value * 10 : Nat) : Int) (digitOf c) =
              some ((value * 10 + digitOf c : Nat) : Int) := uint64_fit within
          rw [if_neg (fun less => large (Int.ofNat_lt.mp less)), if_neg large]
          simp only [scaled, next, Option.bind_some]
          exact induction within

theorem parseU64Words_eq (text : Bytes) :
    parseU64Words text = some ((parseU64 text).map Int.ofNat) := by
  unfold parseU64Words parseU64
  by_cases empty : text = []
  · simp only [if_pos empty]
    rfl
  · simp only [if_neg empty]
    exact parseDigits_eq (Nat.zero_le _) text

theorem parseI64Words_eq (text : Bytes) : parseI64Words text = some (parseI64 text) := by
  have bounds : llongMin = -(2 ^ 63) ∧ llongMax = 2 ^ 63 - 1 ∧ uint64Max = 2 ^ 64 - 1 :=
    ⟨rfl, rfl, rfl⟩
  have limit : uint64.add llongMax 1 = some (llongMax + 1) := by decide
  unfold parseI64Words parseI64
  simp only [parseU64Words_eq, Option.bind_eq_bind, Option.bind_some]
  cases parsed : parseU64 (if text.head? = some 45 then text.tail else text) with
  | none => rfl
  | some magnitude =>
      simp only [Option.map_some, Int.ofNat_eq_natCast]
      by_cases negative : text.head? = some 45
      · simp only [if_pos negative, limit, Option.bind_some]
        by_cases overflows : llongMax + 1 < ↑magnitude
        · simp only [if_pos overflows]
        · simp only [if_neg overflows]
          by_cases least : ↑magnitude = llongMax + 1
          · rw [if_pos least]
            rw [least]
            rfl
          · simp only [if_neg least]
            have cast : longLong.fit magnitude = some (magnitude : Int) :=
              Word.fit_of_holds (by change llongMin ≤ _; omega) (by change _ ≤ llongMax; omega)
            have negated : longLong.neg magnitude = some (-(magnitude : Int)) :=
              Word.fit_of_holds (by change llongMin ≤ _; omega) (by change _ ≤ llongMax; omega)
            simp only [cast, negated, Option.bind_some]
      · simp only [if_neg negative]
        by_cases overflows : llongMax < ↑magnitude
        · simp only [if_pos overflows]
        · simp only [if_neg overflows]
          have cast : longLong.fit magnitude = some (magnitude : Int) :=
            Word.fit_of_holds (by change llongMin ≤ _; omega) (by change _ ≤ llongMax; omega)
          simp only [cast, Option.bind_some]

end SomniumDB.FsUtil
