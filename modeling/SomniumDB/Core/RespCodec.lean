import Mathlib.Data.Nat.Digits.Lemmas
import SomniumDB.Storage.AofRecord

/-! # What the parser accepts

An encoded command is parsed back wherever it stands in a buffer, and what is
parsed respects the limits. -/

namespace SomniumDB.Resp

open Bytes FsUtil

/-! ## Headers -/

theorem findCrlf_of_not_mem (front back : Bytes) (absent : 13 ∉ front) :
    findCrlf (front ++ 13 :: 10 :: back) = some front.length := by
  induction front with
  | nil => rfl
  | cons byte rest induction =>
      rw [List.mem_cons, not_or] at absent
      have next := induction absent.2
      rw [List.cons_append, findCrlf, next]
      · rfl
      · rintro rest' rfl
        exact absurd rfl absent.1

theorem length_decimal_le {number : Nat} (bounded : number ≤ uint64Max) :
    (decimal number).length ≤ 20 := by
  unfold decimal
  by_cases zero : number = 0
  · rw [if_pos zero]
    simp
  · rw [if_neg zero]
    rw [List.length_map, List.length_reverse, Nat.digits_length_le_iff (by omega)]
    exact bounded.trans_lt (by decide)

theorem cr_not_mem_decimal (number : Nat) : 13 ∉ decimal number := by
  intro member
  exact absurd (decimal_digits number 13 member).1 (by decide)

theorem fromChars_decimal {number : Nat} (bounded : number ≤ uint64Max) :
    fromChars (decimal number) = some number :=
  parseU64_decimal number bounded

theorem header_of_window {lead : UInt8} {max number crlf : Nat} {rest : Bytes}
    (first : rest.head? = some lead)
    (found : findCrlf (rest.take kMaxHeader) = some crlf)
    (digits : ((rest.take kMaxHeader).take crlf).drop 1 = decimal number)
    (bounded : number ≤ uint64Max) :
    header lead max rest =
      if max < number then .malformed else .complete number (crlf + 2) := by
  rcases List.head?_eq_some_iff.mp first with ⟨tail, rfl⟩
  simp only [header, ne_eq, not_true_eq_false, if_false, found, digits,
    fromChars_decimal bounded]

theorem header_encoded (lead : UInt8) (max number : Nat) (back : Bytes) (notCr : lead ≠ 13)
    (bounded : number ≤ uint64Max) :
    header lead max (lead :: (decimal number ++ crlf) ++ back) =
      if max < number then .malformed
      else .complete number ((decimal number).length + 3) := by
  have short := length_decimal_le bounded
  have length : (lead :: (decimal number ++ crlf)).length = (decimal number).length + 3 := by
    simp [crlf]
  have window : (lead :: (decimal number ++ crlf) ++ back).take kMaxHeader =
      (lead :: decimal number) ++ 13 :: 10 ::
        back.take (kMaxHeader - ((decimal number).length + 3)) := by
    rw [List.take_append, length, List.take_of_length_le]
    · simp [crlf]
    · rw [length, kMaxHeader]
      omega
  have absent : 13 ∉ lead :: decimal number := by
    rw [List.mem_cons, not_or]
    exact ⟨Ne.symm notCr, cr_not_mem_decimal number⟩
  apply header_of_window rfl
  · rw [window]
    exact findCrlf_of_not_mem _ _ absent
  · rw [window, List.take_left' (by simp)]
    rfl
  · exact bounded

theorem header_le {lead : UInt8} {max value used : Nat} {rest : Bytes}
    (accepted : header lead max rest = .complete value used) : value ≤ max := by
  unfold header at accepted
  split at accepted
  · cases accepted
  · split at accepted
    · cases accepted
    · dsimp only at accepted
      split at accepted
      · split at accepted <;> cases accepted
      · split at accepted
        · cases accepted
        · split at accepted
          · cases accepted
          · rename_i small
            cases accepted
            exact Nat.le_of_not_lt small

/-! ## Commands -/

theorem parseBulks_encoded (args : List Bytes) (back : Bytes) (pos : Nat)
    (small : ∀ arg ∈ args, arg.length ≤ kMaxBulk) :
    parseBulks args.length (args.flatMap bulk ++ back) pos =
      .complete (pos + (args.flatMap bulk).length) args := by
  induction args generalizing pos with
  | nil => rfl
  | cons arg rest induction =>
      have argSmall : arg.length ≤ kMaxBulk := small arg List.mem_cons_self
      have bounded : arg.length ≤ uint64Max := argSmall.trans (by decide)
      have layout : (arg :: rest).flatMap bulk ++ back =
          36 :: (decimal arg.length ++ crlf) ++ (arg ++ crlf ++ (rest.flatMap bulk ++ back)) := by
        simp [bulk]
      have used : (36 :: (decimal arg.length ++ crlf) : Bytes).length =
          (decimal arg.length).length + 3 := by
        simp [crlf]
      have body : ((36 :: (decimal arg.length ++ crlf) ++
          (arg ++ crlf ++ (rest.flatMap bulk ++ back)) : Bytes)).drop
            ((decimal arg.length).length + 3) =
          arg ++ crlf ++ (rest.flatMap bulk ++ back) :=
        List.drop_left' used
      rw [List.length_cons, parseBulks, layout,
        header_encoded 36 kMaxBulk _ _ (by decide) bounded,
        if_neg (Nat.not_lt.mpr argSmall)]
      dsimp only
      rw [body]
      have enough : ¬ (arg ++ crlf ++ (rest.flatMap bulk ++ back)).length < arg.length + 2 := by
        simp [crlf]
      have ends : (arg ++ crlf ++ (rest.flatMap bulk ++ back))[arg.length]? = some 13 ∧
          (arg ++ crlf ++ (rest.flatMap bulk ++ back))[arg.length + 1]? = some 10 := by
        simp [crlf]
      have tail : (arg ++ crlf ++ (rest.flatMap bulk ++ back)).drop (arg.length + 2) =
          rest.flatMap bulk ++ back :=
        List.drop_left' (by simp [crlf])
      have front : (arg ++ crlf ++ (rest.flatMap bulk ++ back)).take arg.length = arg := by
        rw [List.append_assoc, List.take_left]
      rw [if_neg enough, ends.1, ends.2, if_neg (by simp), tail, front,
        induction _ fun other member => small other (List.mem_cons_of_mem _ member)]
      simp only [Parsed.complete.injEq, and_true, List.flatMap_cons, List.length_append]
      have bulkLength : (bulk arg).length = (decimal arg.length).length + 3 + arg.length + 2 := by
        simp [bulk, crlf]
        omega
      omega

theorem drop_front (front back : Bytes) (args : List Bytes) :
    (front ++ encode args ++ back).drop front.length =
      42 :: (decimal args.length ++ crlf) ++ (args.flatMap bulk ++ back) := by
  rw [List.append_assoc, List.drop_left]
  simp [encode]

theorem parse_encoded_many (front back : Bytes) (args : List Bytes)
    (many : kMaxArgs < args.length) (bounded : args.length ≤ uint64Max) :
    parse (front ++ encode args ++ back) front.length = .malformed := by
  unfold parse
  rw [drop_front]
  dsimp only
  rw [header_encoded 42 kMaxArgs _ _ (by decide) bounded, if_pos many]

/-- An encoded command, wherever it stands in a buffer: it is parsed back with
its own length unless it has too many arguments. -/
theorem parse_encoded (front back : Bytes) (args : List Bytes)
    (small : ∀ arg ∈ args, arg.length ≤ kMaxBulk) (bounded : args.length ≤ uint64Max) :
    parse (front ++ encode args ++ back) front.length =
      if kMaxArgs < args.length then .malformed
      else .complete (front.length + (encode args).length) args := by
  by_cases many : kMaxArgs < args.length
  · rw [if_pos many]
    exact parse_encoded_many front back args many bounded
  · have used : (42 :: (decimal args.length ++ crlf) : Bytes).length =
        (decimal args.length).length + 3 := by
      simp [crlf]
    unfold parse
    rw [drop_front]
    dsimp only
    rw [header_encoded 42 kMaxArgs _ _ (by decide) bounded, if_neg many, if_neg many]
    dsimp only
    rw [List.drop_left' used, parseBulks_encoded args back _ small]
    simp only [Parsed.complete.injEq, and_true, encode, List.length_append, used]
    omega

/-! ## Commands cut short -/

theorem findCrlf_eq_some {text : Bytes} {index : Nat} (found : findCrlf text = some index) :
    text[index]? = some 13 ∧ text[index + 1]? = some 10 := by
  induction text using findCrlf.induct generalizing index with
  | case1 rest =>
      rw [findCrlf] at found
      obtain rfl : 0 = index := Option.some.inj found
      exact ⟨rfl, rfl⟩
  | case2 byte rest other induction =>
      rw [findCrlf] at found
      · rcases Option.map_eq_some_iff.mp found with ⟨before, inRest, rfl⟩
        exact induction inRest
      · exact other
  | case3 => cases found

theorem header_cut {lead : UInt8} {number : Nat} {part rest : Bytes} (max : Nat)
    (notCr : lead ≠ 13) (bounded : number ≤ uint64Max)
    (whole : lead :: (decimal number ++ crlf) = part ++ rest) (cut : rest ≠ []) :
    header lead max part = .needMore := by
  have short := length_decimal_le bounded
  have lengths : part.length + rest.length = (decimal number).length + 3 := by
    rw [← List.length_append, ← whole]
    simp [crlf]
  have positive : 0 < rest.length := List.length_pos_iff.mpr cut
  cases part with
  | nil => rfl
  | cons first more =>
      obtain rfl : lead = first := by simpa using congrArg List.head? whole
      have narrow : (lead :: more).length < kMaxHeader := by
        rw [kMaxHeader]
        omega
      have window : (lead :: more).take kMaxHeader = lead :: more :=
        List.take_of_length_le narrow.le
      have absent : findCrlf (lead :: more) = none := by
        cases found : findCrlf (lead :: more) with
        | none => rfl
        | some index =>
            rcases findCrlf_eq_some found with ⟨cr, lf⟩
            have inside : index + 1 < (lead :: more).length :=
              (List.getElem?_eq_some_iff.mp lf).1
            have early : index < (lead :: decimal number).length := by
              simp only [List.length_cons] at inside lengths ⊢
              omega
            have inLine : (lead :: decimal number ++ crlf)[index]? = some 13 := by
              rw [List.cons_append, whole, List.getElem?_append_left (by omega)]
              exact cr
            rw [List.getElem?_append_left early] at inLine
            have member := List.mem_of_getElem? inLine
            rcases List.mem_cons.mp member with same | digit
            · exact absurd same.symm notCr
            · exact absurd digit (cr_not_mem_decimal number)
      simp only [header, ne_eq, not_true_eq_false, if_false, window, absent, if_pos narrow]

theorem parseBulks_cut {args : List Bytes} {part rest : Bytes} (pos : Nat)
    (small : ∀ arg ∈ args, arg.length ≤ kMaxBulk)
    (whole : args.flatMap bulk = part ++ rest) (cut : rest ≠ []) :
    parseBulks args.length part pos = .needMore := by
  induction args generalizing part pos with
  | nil => exact absurd (List.append_eq_nil_iff.mp whole.symm).2 cut
  | cons arg others induction =>
      have argSmall : arg.length ≤ kMaxBulk := small arg List.mem_cons_self
      have bounded : arg.length ≤ uint64Max := argSmall.trans (by decide)
      have layout : 36 :: (decimal arg.length ++ crlf) ++
          (arg ++ crlf ++ others.flatMap bulk) = part ++ rest := by
        rw [← whole]
        simp [bulk]
      rw [List.length_cons, parseBulks]
      rcases cut_cases layout with ⟨missing, some, lineEq⟩ | ⟨body, partEq, bodyEq⟩
      · rw [header_cut kMaxBulk (by decide) bounded lineEq some]
      · have used : (36 :: (decimal arg.length ++ crlf) : Bytes).length =
            (decimal arg.length).length + 3 := by
          simp [crlf]
        rw [partEq, header_encoded 36 kMaxBulk _ _ (by decide) bounded,
          if_neg (Nat.not_lt.mpr argSmall)]
        dsimp only
        rw [List.drop_left' used]
        rcases cut_cases bodyEq with ⟨missing, some, argEq⟩ | ⟨later, laterEq, tailEq⟩
        · have lengths := congrArg List.length argEq
          have positive : 0 < missing.length := List.length_pos_iff.mpr some
          simp only [List.length_append, crlf, List.length_cons, List.length_nil] at lengths
          rw [if_pos (by omega)]
        · have enough : ¬ body.length < arg.length + 2 := by
            rw [laterEq]
            simp [crlf]
          have ends : body[arg.length]? = some 13 ∧ body[arg.length + 1]? = some 10 := by
            rw [laterEq]
            simp [crlf]
          have next : body.drop (arg.length + 2) = later := by
            rw [laterEq]
            exact List.drop_left' (by simp [crlf])
          rw [if_neg enough, ends.1, ends.2, if_neg (by simp), next,
            induction _ (fun other member => small other (List.mem_cons_of_mem _ member)) tailEq]

theorem parse_cut {args : List Bytes} {part rest : Bytes} (front : Bytes)
    (small : ∀ arg ∈ args, arg.length ≤ kMaxBulk) (few : args.length ≤ kMaxArgs)
    (whole : encode args = part ++ rest) (cut : rest ≠ []) :
    parse (front ++ part) front.length = .needMore := by
  have bounded : args.length ≤ uint64Max := few.trans (by decide)
  have used : (42 :: (decimal args.length ++ crlf) : Bytes).length =
      (decimal args.length).length + 3 := by
    simp [crlf]
  unfold parse
  rw [List.drop_left]
  dsimp only
  rcases cut_cases whole with ⟨missing, some, lineEq⟩ | ⟨body, partEq, bodyEq⟩
  · rw [header_cut kMaxArgs (by decide) bounded lineEq some]
  · rw [partEq, header_encoded 42 kMaxArgs _ _ (by decide) bounded,
      if_neg (Nat.not_lt.mpr few)]
    dsimp only
    rw [List.drop_left' used]
    exact parseBulks_cut _ small bodyEq cut

/-- A client that writes an encoded command is understood. -/
theorem parseRequest_encoded (args : List Bytes) (few : args.length ≤ kMaxArgs)
    (small : ∀ arg ∈ args, arg.length ≤ kMaxBulk) :
    parseRequest (encode args) 0 = .complete (encode args).length args := by
  have parsed := parse_encoded [] [] args small (few.trans (by decide))
  rw [if_neg (Nat.not_lt.mpr few)] at parsed
  simp only [List.nil_append, List.append_nil, List.length_nil, Nat.zero_add] at parsed
  have first : (encode args).drop 0 = 42 :: ((decimal args.length ++ crlf) ++
      args.flatMap bulk) := rfl
  unfold parseRequest
  rw [first]
  simp only [if_true]
  exact parsed

def Within (args : List Bytes) : Prop :=
  args.length ≤ kMaxArgs ∧ ∀ arg ∈ args, arg.length ≤ kMaxBulk

theorem parseBulks_within {count : Nat} {rest : Bytes} {pos stop : Nat} {args : List Bytes}
    (accepted : parseBulks count rest pos = .complete stop args) :
    args.length = count ∧ ∀ arg ∈ args, arg.length ≤ kMaxBulk := by
  induction count generalizing rest pos stop args with
  | zero =>
      cases accepted
      simp
  | succ count induction =>
      rw [parseBulks] at accepted
      split at accepted
      · cases accepted
      · cases accepted
      · rename_i len used head
        dsimp only at accepted
        by_cases short : (List.drop used rest).length < len + 2
        · rw [if_pos short] at accepted
          cases accepted
        · rw [if_neg short] at accepted
          by_cases unterminated : (List.drop used rest)[len]? ≠ some 13 ∨
              (List.drop used rest)[len + 1]? ≠ some 10
          · rw [if_pos unterminated] at accepted
            cases accepted
          · rw [if_neg unterminated] at accepted
            split at accepted
            · rename_i others parsed
              cases accepted
              rcases induction parsed with ⟨count, each⟩
              refine ⟨by simp [count], ?_⟩
              intro arg member
              rcases List.mem_cons.mp member with rfl | later
              · exact (List.length_take_le _ _).trans (header_le head)
              · exact each arg later
            · rename_i other notComplete
              exact absurd accepted (notComplete _ _)

theorem parse_within {buf : Bytes} {pos stop : Nat} {args : List Bytes}
    (accepted : parse buf pos = .complete stop args) : Within args := by
  unfold parse at accepted
  dsimp only at accepted
  split at accepted
  · cases accepted
  · cases accepted
  · rename_i count used head
    rcases parseBulks_within accepted with ⟨length, each⟩
    exact ⟨length ▸ header_le head, each⟩

theorem scanArg_length {quote : UInt8} {arg line result unread : Bytes}
    (scanned : scanArg quote arg line = some (result, unread)) :
    result.length + unread.length ≤ arg.length + line.length := by
  fun_induction scanArg quote arg line <;> grind

theorem splitInlineLoop_within {fuel : Nat} {line : Bytes} {args : List Bytes}
    (accepted : splitInlineLoop fuel line = some args) :
    args.length ≤ fuel ∧ ∀ arg ∈ args, arg.length ≤ line.length := by
  induction fuel generalizing line args with
  | zero =>
      cases accepted
      simp
  | succ fuel induction =>
      rw [splitInlineLoop] at accepted
      have shorter := (List.dropWhile_suffix isSpace (l := line)).length_le
      cases trimmed : List.dropWhile isSpace line with
      | nil =>
          simp only [trimmed] at accepted
          cases accepted
          simp
      | cons ch rest =>
          simp only [trimmed] at accepted
          rw [trimmed] at shorter
          rcases scanned : scanArg 0 [] (ch :: rest) with _ | ⟨arg, unread⟩
          · simp only [scanned] at accepted
            cases accepted
          · simp only [scanned] at accepted
            rcases Option.map_eq_some_iff.mp accepted with ⟨others, split, rfl⟩
            rcases induction split with ⟨count, each⟩
            have length := scanArg_length scanned
            simp only [List.length_nil, Nat.zero_add] at length
            refine ⟨by simp only [List.length_cons]; omega, ?_⟩
            intro other member
            rcases List.mem_cons.mp member with rfl | later
            · omega
            · have := each other later
              omega

theorem parseRequest_within {buf : Bytes} {pos stop : Nat} {args : List Bytes}
    (accepted : parseRequest buf pos = .complete stop args) : Within args := by
  unfold parseRequest at accepted
  dsimp only at accepted
  split at accepted
  · exact parse_within accepted
  · split at accepted
    · exact parse_within accepted
    · split at accepted
      · split at accepted <;> cases accepted
      · rename_i nl found
        have limits : kMaxInline < kMaxArgs ∧ kMaxInline ≤ kMaxBulk := by decide
        generalize lineEq : ((buf.drop pos).take kMaxInline).take nl = line at accepted
        have short : line.length ≤ kMaxInline := by
          rw [← lineEq]
          exact (List.length_take_le' _ _).trans (List.length_take_le _ _)
        have trimmed : (if line.getLast? = some 13 then line.dropLast else line).length ≤
            line.length := by
          by_cases crlf : line.getLast? = some 13
          · rw [if_pos crlf]
            simp
          · rw [if_neg crlf]
        split at accepted
        · cases accepted
        · rename_i split
          cases accepted
          rcases splitInlineLoop_within split with ⟨count, each⟩
          refine ⟨by omega, ?_⟩
          intro arg member
          have argShort := each arg member
          omega

end SomniumDB.Resp
