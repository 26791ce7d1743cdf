import SomniumDB.Core.RespValue
import SomniumDB.Core.Crdt
import SomniumDB.Core.Commands

/-! # What the checks of the arguments answer

Each check of the arguments refuses with an error line. -/

namespace SomniumDB

open Bytes FsUtil Resp

namespace Db

variable {now : Nat} {err : Bytes}

theorem setOptions_texts {options : SetOptions} {rest : List Bytes}
    (refused : setOptions now options rest = .error err) :
    err = ascii "-ERR syntax error\r\n" ∨
      err = ascii "-ERR invalid expire time in 'set' command\r\n" := by
  fun_induction setOptions now options rest with
  | case1 => cases refused
  | case2 _ _ _ _ _ induction => exact induction refused
  | case3 =>
      cases refused
      exact .inl rfl
  | case4 => exact .inr (Except.error.inj refused).symm
  | case5 => exact .inr (Except.error.inj refused).symm
  | case6 _ _ _ _ _ _ _ _ _ _ _ induction => exact induction refused
  | case7 =>
      cases refused
      exact .inl rfl

theorem setOptions_error {options : SetOptions} {rest : List Bytes}
    (refused : setOptions now options rest = .error err) : ErrorLine err := by
  rcases setOptions_texts refused with rfl | rfl <;> decide

theorem expireDeadline_text {scale : Int} {args : List Bytes}
    (refused : expireDeadline now scale args = .error err) :
    err = ascii "-ERR invalid expire time\r\n" := by
  unfold expireDeadline at refused
  by_cases persists : scale = 0
  · rw [if_pos persists] at refused
    cases refused
  · rw [if_neg persists] at refused
    cases parsed : parseI64 (args[2]?.getD []) with
    | none =>
        simp only [parsed] at refused
        exact (Except.error.inj refused).symm
    | some n =>
        simp only [parsed] at refused
        by_cases overflows : n < llongMin.tdiv scale ∨ (llongMax - (now : Int)).tdiv scale < n
        · rw [if_pos overflows] at refused
          exact (Except.error.inj refused).symm
        · rw [if_neg overflows] at refused
          cases refused

theorem expireDeadline_error {scale : Int} {args : List Bytes}
    (refused : expireDeadline now scale args = .error err) : ErrorLine err := by
  rw [expireDeadline_text refused]
  decide

theorem incomingVersion_texts {db : Db} {tsArg nodeArg : Bytes}
    (refused : db.incomingVersion now tsArg nodeArg = .error err) :
    err = ascii "-ERR invalid timestamp or node id\r\n" ∨
      err = ascii
        "-ERR timestamp too far in the future (SOMNIUM_MAX_CLOCK_OFFSET_MS)\r\n" := by
  unfold incomingVersion at refused
  split at refused
  · split at refused
    · exact .inl (Except.error.inj refused).symm
    · dsimp only at refused
      split at refused
      · exact .inr (Except.error.inj refused).symm
      · cases refused
  · exact .inl (Except.error.inj refused).symm

theorem incomingVersion_error {db : Db} {tsArg nodeArg : Bytes}
    (refused : db.incomingVersion now tsArg nodeArg = .error err) : ErrorLine err := by
  rcases incomingVersion_texts refused with rfl | rfl <;> decide

/-- An option that `EXPIRE` does not know. -/
def unsupported (option : Bytes) : Bool :=
  !([ascii "NX", ascii "XX", ascii "GT", ascii "LT"].contains (upper option))

/-- The options of `EXPIRE` are read up to the first that is not supported, which the
error line repeats. -/
theorem expireOptions_spec (options : ExpireOptions) (rest : List Bytes) :
    match rest.find? unsupported with
    | none => ∃ known, expireOptions options rest = .ok known
    | some option => expireOptions options rest =
        .error (ascii "-ERR Unsupported option " ++ option ++ crlf) := by
  fun_induction expireOptions options rest with
  | case1 options => exact ⟨options, rfl⟩
  | case2 _ option _ opt known induction =>
      have supported : unsupported option = false := by simp [unsupported, known, opt]
      rw [List.find?_cons, supported]
      exact induction
  | case3 _ option _ opt _ known induction =>
      have supported : unsupported option = false := by simp [unsupported, known, opt]
      rw [List.find?_cons, supported]
      exact induction
  | case4 _ option _ opt _ _ known induction =>
      have supported : unsupported option = false := by simp [unsupported, known, opt]
      rw [List.find?_cons, supported]
      exact induction
  | case5 _ option _ opt _ _ _ known induction =>
      have supported : unsupported option = false := by simp [unsupported, known, opt]
      rw [List.find?_cons, supported]
      exact induction
  | case6 _ option _ opt nx xx gt lt =>
      have unknown : unsupported option = true := by simp_all [unsupported, opt]
      rw [List.find?_cons, unknown]

theorem expireOptions_text {options : ExpireOptions} {rest : List Bytes}
    (refused : expireOptions options rest = .error err) :
    ∃ option, err = ascii "-ERR Unsupported option " ++ option ++ crlf := by
  have spec := expireOptions_spec options rest
  cases found : rest.find? unsupported with
  | none =>
      rw [found] at spec
      rcases spec with ⟨known, accepted⟩
      rw [accepted] at refused
      cases refused
  | some option =>
      rw [found] at spec
      rw [spec] at refused
      exact ⟨option, (Except.error.inj refused).symm⟩

theorem expireOptions_error {options : ExpireOptions} {rest : List Bytes}
    (refused : expireOptions options rest = .error err) : err.head? = some 45 := by
  rcases expireOptions_text refused with ⟨option, rfl⟩
  rfl

end Db

end SomniumDB
