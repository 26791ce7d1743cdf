import SomniumDB.Core.RespTail
import SomniumDB.Storage.AofRecoveryCodec

/-! # What recovery makes of any file

A valid log is a sequence of arrays that can be understood as records. Recovery replays the
longest one with which the file begins. Behind it, what a crash has left of one more array is
to be cut off, and anything else is to be kept aside. -/

namespace SomniumDB.AofRecovery

open Bytes FsUtil Resp AofRecord

/-- What the tokens of an array say, given the format if it is known: the format from then
on, and the records. -/
def understand (fmt : Option Fmt) (tokens : List Bytes) : Option (Fmt × List AofRecord) :=
  match fmt with
  | some fmt => (buildRecord fmt tokens).map fun record => (fmt, [record])
  | none =>
      match detect tokens with
      | .header => some (.v3, [])
      | .corrupt => none
      | .legacy fmt => (buildRecord fmt tokens).map fun record => (fmt, [record])

/-- Arrays that say these records, read with the first format and leading to the second. -/
inductive ValidLog : Option Fmt → Bytes → List AofRecord → Option Fmt → Prop
  | nil {fmt : Option Fmt} : ValidLog fmt [] [] fmt
  | cons {fmt next : Option Fmt} {known : Fmt} {bytes rest : Bytes} {tokens : List Bytes}
      {emitted records : List AofRecord} (array : IsArray bytes tokens)
      (understood : understand fmt tokens = some (known, emitted))
      (others : ValidLog (some known) rest records next) :
      ValidLog fmt (bytes ++ rest) (emitted ++ records) next

/-- No record can be read here. -/
def Stops (fmt : Option Fmt) (tail : Bytes) : Prop :=
  ∀ stop tokens, parse tail 0 = .complete stop tokens → understand fmt tokens = none

theorem stops_of_waits {fmt : Option Fmt} {tail : Bytes} (waits : parse tail 0 = .needMore) :
    Stops fmt tail := by
  intro stop tokens accepted
  rw [waits] at accepted
  cases accepted

/-- Where no record can be read, a log has ended. -/
theorem ValidLog.longest {fmt next last : Option Fmt} {front tail longer : Bytes}
    {records others : List AofRecord} (valid : ValidLog fmt front records next)
    (stops : Stops next tail) (other : ValidLog fmt longer others last)
    (begins : longer <+: front ++ tail) : longer.length ≤ front.length := by
  rcases begins with ⟨more, begins⟩
  induction valid generalizing longer others with
  | nil =>
      cases other with
      | nil => exact le_rfl
      | @cons _ _ _ bytes rest _ _ _ array understood _ =>
          rw [List.append_assoc, List.nil_append] at begins
          have accepted := array.parse_append (rest ++ more)
          rw [begins] at accepted
          rw [stops _ _ accepted] at understood
          cases understood
  | cons array understood _ induction =>
      cases other with
      | nil => exact Nat.zero_le _
      | cons second meant rest =>
          rw [List.append_assoc, List.append_assoc] at begins
          rcases second.unique array begins with ⟨rfl, rfl, behind⟩
          rw [understood, Option.some.injEq, Prod.mk.injEq] at meant
          rcases meant with ⟨rfl, -⟩
          have shorter := induction stops rest behind
          rw [List.length_append, List.length_append]
          omega

/-! ## The loop -/

variable {reader : Reader} {unread : List Bytes} {consumed : Nat} {rest : Bytes}

theorem recoverLoop_refused {after : Reader} {left : List Bytes} {position : Nat}
    {tokens : List Bytes} {fmt : Option Fmt}
    (found : nextRecord reader unread = (.complete position tokens, after, left))
    (refused : understand fmt tokens = none) (rounds : Nat) (recovery : Recovery) :
    (recoverLoop (rounds + 1) reader unread fmt recovery).replayed = recovery.replayed ∧
      (recoverLoop (rounds + 1) reader unread fmt recovery).file = none := by
  rw [recoverLoop, found]
  dsimp only
  unfold understand at refused
  cases fmt with
  | some fmt =>
      rw [Option.map_eq_none_iff] at refused
      dsimp only
      rw [refused]
      exact ⟨rfl, rfl⟩
  | none =>
      dsimp only at refused ⊢
      cases detected : detect tokens with
      | header =>
          rw [detected] at refused
          cases refused
      | corrupt => exact ⟨rfl, rfl⟩
      | legacy fmt =>
          rw [detected] at refused
          dsimp only at refused ⊢
          rw [Option.map_eq_none_iff] at refused
          rw [refused]
          exact ⟨rfl, rfl⟩

theorem recoverLoop_understood {after : Reader} {left : List Bytes} {position : Nat}
    {tokens : List Bytes} {fmt : Option Fmt} {known : Fmt} {emitted : List AofRecord}
    (found : nextRecord reader unread = (.complete position tokens, after, left))
    (understood : understand fmt tokens = some (known, emitted)) (rounds : Nat)
    (recovery : Recovery) :
    ∃ later : Recovery, later.replayed = recovery.replayed ++ emitted ∧
      later.file = recovery.file ∧
      recoverLoop (rounds + 1) reader unread fmt recovery =
        recoverLoop rounds { after with pos := position } left (some known) later := by
  rw [recoverLoop, found]
  dsimp only
  unfold understand at understood
  cases fmt with
  | some fmt =>
      rcases Option.map_eq_some_iff.mp understood with ⟨record, built, same⟩
      cases same
      dsimp only
      rw [built]
      exact ⟨recovery.replay record, rfl, rfl, rfl⟩
  | none =>
      dsimp only at understood ⊢
      cases detected : detect tokens with
      | header =>
          rw [detected] at understood
          cases understood
          exact ⟨recovery, (List.append_nil _).symm, rfl, rfl⟩
      | corrupt =>
          rw [detected] at understood
          cases understood
      | legacy fmt =>
          rw [detected] at understood
          rcases Option.map_eq_some_iff.mp understood with ⟨record, built, same⟩
          cases same
          dsimp only
          rw [built]
          exact ⟨{ recovery with needsRewrite := true }.replay record, rfl, rfl, rfl⟩

/-- What the loop leaves: the records of the longest log have been replayed, and the file is
cut behind it where the parser still waits. -/
theorem recoverLoop_outcome {rounds : Nat} (fmt : Option Fmt)
    (here : reader.At unread consumed rest) (enough : rest.length < rounds)
    (recovery : Recovery)
    (sized : recovery.file.map (·.take (consumed + rest.length)) = recovery.file) :
    ∃ front tail records next, rest = front ++ tail ∧ ValidLog fmt front records next ∧
      Stops next tail ∧
      (recoverLoop rounds reader unread fmt recovery).replayed = recovery.replayed ++ records ∧
      (parse tail 0 = .needMore → (recoverLoop rounds reader unread fmt recovery).file =
        recovery.file.map (·.take (consumed + front.length))) ∧
      (parse tail 0 ≠ .needMore →
        (recoverLoop rounds reader unread fmt recovery).file = none) := by
  induction rounds generalizing reader unread consumed rest fmt recovery with
  | zero => exact absurd enough (Nat.not_lt_zero _)
  | succ rounds induction =>
      cases found : parse rest 0 with
      | needMore =>
          have ended : recoverLoop (rounds + 1) reader unread fmt recovery =
              if rest = [] then recovery else recovery.truncate consumed := by
            rw [recoverLoop, nextRecord_waits found here]
            cases rest with
            | nil => rfl
            | cons first others => rfl
          refine ⟨[], rest, [], fmt, rfl, .nil, stops_of_waits found, ?_, fun _ => ?_,
            fun decided => absurd found decided⟩
          · rw [ended, List.append_nil]
            by_cases empty : rest = []
            · rw [if_pos empty]
            · rw [if_neg empty]
              rfl
          · rw [ended]
            by_cases nothing : rest = []
            · rw [if_pos nothing]
              rw [nothing] at sized
              exact sized.symm
            · rw [if_neg nothing]
              rfl
      | malformed =>
          have decided : parse rest 0 ≠ .needMore := by
            rw [found]
            exact Parsed.noConfusion
          rcases nextRecord_decided decided here with ⟨after, left, next, -, -⟩
          rw [found] at next
          have stops : Stops fmt rest := by
            intro stop tokens accepted
            rw [found] at accepted
            cases accepted
          refine ⟨[], rest, [], fmt, rfl, .nil, stops, ?_, fun waits => absurd waits decided,
            fun _ => ?_⟩
          all_goals
            rw [recoverLoop, next]
            simp [Parsed.shift, Recovery.corrupt]
      | complete stop tokens =>
          rcases nextRecord_record found here with ⟨position, after, left, next, there⟩
          have inside := (parse_stop found).2
          have positive := (parse_stop found).1
          cases meaning : understand fmt tokens with
          | none =>
              rcases recoverLoop_refused next meaning rounds recovery with ⟨replayed, file⟩
              have stops : Stops fmt rest := by
                intro stop others accepted
                rw [found] at accepted
                cases accepted
                exact meaning
              have decided : parse rest 0 ≠ .needMore := by
                rw [found]
                exact Parsed.noConfusion
              exact ⟨[], rest, [], fmt, rfl, .nil, stops, by rw [replayed, List.append_nil],
                fun waits => absurd waits decided, fun _ => file⟩
          | some pair =>
              rcases pair with ⟨known, emitted⟩
              rcases recoverLoop_understood next meaning rounds recovery with
                ⟨later, replayed, file, same⟩
              have size : (rest.take stop).length = stop := List.length_take_of_le inside
              have behind : (rest.drop stop).length = rest.length - stop := List.length_drop
              have total : consumed + stop + (rest.drop stop).length = consumed + rest.length := by
                omega
              rcases induction (some known) there (by omega) later (by rw [total, file, sized]) with
                ⟨front, tail, records, last, layout, valid, stops, given, cut, kept⟩
              rw [same]
              refine ⟨rest.take stop ++ front, tail, emitted ++ records, last, ?_,
                .cons (isArray_take found) meaning valid, stops, ?_, ?_, kept⟩
              · rw [List.append_assoc, ← layout, List.take_append_drop]
              · rw [given, replayed, List.append_assoc]
              · intro waits
                rw [cut waits, file, List.length_append, size, Nat.add_assoc]

/-! ## Whole files -/

/-- The longest valid log with which the file begins, and its records. -/
def Longest (bytes front : Bytes) (records : List AofRecord) : Prop :=
  (∃ fmt, ValidLog none front records fmt) ∧ front <+: bytes ∧
    ∀ longer others fmt, ValidLog none longer others fmt → longer <+: bytes →
      longer.length ≤ front.length

/-- Recovery replays the longest valid log and cuts off what is behind it if that may have
become one more array, which may also be nothing; otherwise the file is renamed as it is. -/
def RecoversSoundly (bytes : Bytes) : Prop :=
  ∃ front tail records, bytes = front ++ tail ∧ Longest bytes front records ∧
    (recover (some bytes)).replayed = records ∧
    (CutShort tail → (recover (some bytes)).file = some front) ∧
    (¬CutShort tail → (recover (some bytes)).file = none)

/-- Where the parser waits behind a valid log, more bytes can still make an array. -/
def EndsOpen (bytes : Bytes) : Prop :=
  ∀ front tail records fmt, bytes = front ++ tail → ValidLog none front records fmt →
    parse tail 0 = .needMore → TailOpen tail

theorem recover_outcome (bytes : Bytes) :
    ∃ front tail records next, bytes = front ++ tail ∧ ValidLog none front records next ∧
      Stops next tail ∧ (recover (some bytes)).replayed = records ∧
      (parse tail 0 = .needMore → (recover (some bytes)).file = some front) ∧
      (parse tail 0 ≠ .needMore → (recover (some bytes)).file = none) := by
  by_cases nothing : bytes = []
  · subst nothing
    exact ⟨[], [], [], none, rfl, .nil, stops_of_waits rfl, rfl, fun _ => rfl,
      fun decided => absurd rfl decided⟩
  · have sized : (some bytes).map (·.take (0 + bytes.length)) = some bytes := by
      rw [Option.map_some, Nat.zero_add, List.take_length]
    obtain ⟨front, tail, records, next, layout, valid, stops, replayed, cut, kept⟩ :=
      recoverLoop_outcome none (at_start bytes) (Nat.lt_succ_self _)
        { file := some bytes } sized
    rw [← recover_eq nothing] at replayed cut kept
    refine ⟨front, tail, records, next, layout, valid, stops, replayed, ?_, kept⟩
    intro waits
    rw [cut waits, Option.map_some, Nat.zero_add, layout, List.take_left]

theorem ValidLog.isLongest {front tail : Bytes} {records : List AofRecord} {fmt : Option Fmt}
    (valid : ValidLog none front records fmt) (stops : Stops fmt tail) :
    Longest (front ++ tail) front records :=
  ⟨⟨fmt, valid⟩, List.prefix_append front tail,
    fun _ _ _ other begins => valid.longest stops other begins⟩

/-- There is one longest log. -/
theorem Longest.unique {bytes front other : Bytes} {records others : List AofRecord}
    (first : Longest bytes front records) (second : Longest bytes other others) :
    front = other := by
  rcases first with ⟨⟨_, valid⟩, begins, most⟩
  rcases second with ⟨⟨_, otherValid⟩, otherBegins, otherMost⟩
  have shorter := otherMost _ _ _ valid begins
  have longer := most _ _ _ otherValid otherBegins
  exact (List.prefix_of_prefix_length_le begins otherBegins shorter).eq_of_length_le longer

/-- What stands behind the valid records is cut off where the parser waits for more of it. -/
theorem recover_waiting {front tail : Bytes} {records : List AofRecord} {fmt : Option Fmt}
    (valid : ValidLog none front records fmt) (waits : parse tail 0 = .needMore) :
    (recover (some (front ++ tail))).file = some front := by
  rcases recover_outcome (front ++ tail) with
    ⟨read, behind, _, _, layout, readValid, stops, _, cut, _⟩
  have longest := readValid.isLongest stops
  rw [← layout] at longest
  rcases longest.unique (valid.isLongest (stops_of_waits waits)) with rfl
  rcases List.append_cancel_left layout with rfl
  exact cut waits

/-- Bytes for which the parser waits in vain are cut off too. -/
theorem not_recoversSoundly {front tail : Bytes} {records : List AofRecord} {fmt : Option Fmt}
    (valid : ValidLog none front records fmt) (waits : parse tail 0 = .needMore)
    (stuck : ¬TailOpen tail) : ¬RecoversSoundly (front ++ tail) := by
  rintro ⟨read, behind, others, layout, longest, -, -, kept⟩
  rcases longest.unique (valid.isLongest (stops_of_waits waits)) with rfl
  rcases List.append_cancel_left layout with rfl
  have aside := kept fun cut => stuck ((cutShort_iff waits).mp cut)
  rw [recover_waiting valid waits] at aside
  cases aside

/-- Recovery makes the right thing of a file exactly if the parser waits, behind valid
records, only for bytes that can still complete an array. -/
theorem log_tail_recovered_iff (bytes : Bytes) : RecoversSoundly bytes ↔ EndsOpen bytes := by
  constructor
  · intro sound front tail records fmt layout valid waits
    by_contra stuck
    rw [layout] at sound
    exact not_recoversSoundly valid waits stuck sound
  · intro isOpen
    rcases recover_outcome bytes with
      ⟨front, tail, records, fmt, layout, valid, stops, replayed, cut, kept⟩
    have longest := valid.isLongest stops
    rw [← layout] at longest
    refine ⟨front, tail, records, layout, longest, replayed, fun short => cut short.waits, ?_⟩
    intro whole
    apply kept
    intro waits
    exact whole ((cutShort_iff waits).mpr (isOpen front tail records fmt layout valid waits))

/-- A header line that is no numeral: the file is cut as if the line could be completed. -/
theorem damaged_header_cut :
    (recover (some (aofHeader ++ ascii "*abc"))).file = some aofHeader ∧
      ¬CutShort (ascii "*abc") ∧ ¬RecoversSoundly (aofHeader ++ ascii "*abc") := by
  have waits : parse (ascii "*abc") 0 = .needMore := by decide
  have array : IsArray aofHeader [kMagicToken, ascii "3"] := by
    have accepted := encodes_aofHeader.whole [] []
    rw [List.append_nil] at accepted
    simpa [IsArray] using accepted
  have understood : understand none [kMagicToken, ascii "3"] = some (.v3, []) := by
    unfold understand
    rw [detect_aofHeader]
  have valid : ValidLog none aofHeader [] (some .v3) := by
    have log := ValidLog.cons array understood ValidLog.nil
    rwa [List.append_nil] at log
  have stuck : ¬TailOpen (ascii "*abc") := by
    have head : header 42 kMaxArgs (ascii "*abc") = .needMore := by decide
    unfold TailOpen
    rw [head]
    have letter : 97 ∈ (ascii "*abc").tail := by decide
    have notDigit : ∀ digits, IsNumeral digits → (97 : UInt8) ∉ digits := fun digits numeral member =>
      absurd (numeral.digits 97 member).2 (by decide)
    rintro (nothing | ⟨digits, numeral, -, ⟨same, -⟩ | same⟩)
    · exact absurd nothing (by decide)
    · rw [same] at letter
      exact notDigit digits numeral letter
    · rw [same, List.mem_append] at letter
      exact letter.elim (notDigit digits numeral) (by decide)
  exact ⟨recover_waiting valid waits, fun cut => stuck ((cutShort_iff waits).mp cut),
    not_recoversSoundly valid waits stuck⟩

end SomniumDB.AofRecovery
