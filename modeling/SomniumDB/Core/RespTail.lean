import SomniumDB.Core.RespStream
import SomniumDB.Library.Numeral

/-! # What may still become an array

The parser asks for more bytes also where no bytes can help: in a header line that is not a
numeral, and where one byte is missing behind a string that does not end as it must. -/

namespace SomniumDB.Resp

open Bytes FsUtil

/-- All of the bytes are one array within the limits. -/
def IsArray (bytes : Bytes) (tokens : List Bytes) : Prop :=
  parse bytes 0 = .complete bytes.length tokens

def CutShort (bytes : Bytes) : Prop :=
  ∃ more tokens, more ≠ [] ∧ IsArray (bytes ++ more) tokens

/-! ## Header lines -/

/-- What stands behind the lead byte is nothing yet, or a numeral within the limit for whose
end the window has room, or such a numeral and the first byte of its end. -/
def HeaderOpen (max : Nat) (line : Bytes) : Prop :=
  line = [] ∨ ∃ digits, IsNumeral digits ∧ numeralValue digits ≤ max ∧
    (line = digits ∧ digits.length + 3 ≤ kMaxHeader ∨ line = digits ++ [13])

theorem fromChars_eq_some_iff {max value : Nat} {digits : Bytes} (small : max ≤ uint64Max)
    (within : value ≤ max) :
    fromChars digits = some value ↔ IsNumeral digits ∧ numeralValue digits = value := by
  unfold fromChars
  by_cases empty : digits = []
  · rw [if_pos empty]
    exact iff_of_false (fun read => by cases read) fun accepted => accepted.1.nonempty empty
  · rw [if_neg empty]
    rw [readDecimal_eq_some_iff (by decide) (Nat.zero_le _), Nat.zero_mul, Nat.zero_add]
    constructor
    · rintro ⟨digits, worth, -⟩
      exact ⟨⟨empty, digits⟩, worth⟩
    · rintro ⟨numeral, worth⟩
      exact ⟨numeral.digits, worth, within.trans small⟩

theorem cr_not_mem_numeral {digits : Bytes} (numeral : IsNumeral digits) : 13 ∉ digits := by
  intro member
  exact absurd (numeral.digits 13 member).1 (by decide)

theorem header_numeral {lead : UInt8} {max : Nat} {digits : Bytes} (notCr : lead ≠ 13)
    (small : max ≤ uint64Max) (numeral : IsNumeral digits) (within : numeralValue digits ≤ max)
    (room : digits.length + 3 ≤ kMaxHeader) :
    header lead max (lead :: (digits ++ crlf)) =
      .complete (numeralValue digits) (lead :: (digits ++ crlf)).length := by
  have length : (lead :: (digits ++ crlf)).length = digits.length + 3 := by
    simp [crlf]
  have window : (lead :: (digits ++ crlf)).take kMaxHeader = (lead :: digits) ++ 13 :: 10 :: [] := by
    rw [List.take_of_length_le (by rw [length]; exact room)]
    rfl
  have absent : 13 ∉ lead :: digits := by
    rw [List.mem_cons, not_or]
    exact ⟨Ne.symm notCr, cr_not_mem_numeral numeral⟩
  have found := findCrlf_of_not_mem (lead :: digits) [] absent
  have read := (fromChars_eq_some_iff small within).mpr ⟨numeral, rfl⟩
  unfold header
  dsimp only
  rw [if_neg (not_not.mpr rfl), window, found]
  dsimp only
  rw [List.take_left' rfl, List.drop_one, List.tail_cons, read]
  dsimp only
  rw [if_neg (Nat.not_lt.mpr within), length]
  rfl

theorem header_needMore {lead : UInt8} {max : Nat} {first : UInt8} {line : Bytes}
    (waits : header lead max (first :: line) = .needMore) :
    first = lead ∧ findCrlf (first :: line) = none ∧ (first :: line).length < kMaxHeader := by
  unfold header at waits
  dsimp only at waits
  by_cases apart : first ≠ lead
  · rw [if_pos apart] at waits
    cases waits
  · rw [if_neg apart] at waits
    have whole : (first :: line).length < kMaxHeader →
        (first :: line).take kMaxHeader = first :: line :=
      fun short => List.take_of_length_le (Nat.le_of_lt short)
    cases absent : findCrlf (List.take kMaxHeader (first :: line)) with
    | none =>
        simp only [absent] at waits
        by_cases short : (List.take kMaxHeader (first :: line)).length < kMaxHeader
        · rw [if_pos short] at waits
          have narrow : (first :: line).length < kMaxHeader := by
            rw [List.length_take] at short
            omega
          rw [whole narrow] at absent
          exact ⟨not_not.mp apart, absent, narrow⟩
        · rw [if_neg short] at waits
          cases waits
    | some value =>
        simp only [absent] at waits
        split at waits
        · cases waits
        · split at waits <;> cases waits

theorem drop_of_getElem? {text : Bytes} {index : Nat} (first : text[index]? = some 13)
    (second : text[index + 1]? = some 10) :
    text.drop index = 13 :: 10 :: text.drop (index + 2) := by
  rcases List.getElem?_eq_some_iff.mp first with ⟨inside, cr⟩
  rcases List.getElem?_eq_some_iff.mp second with ⟨insideNext, lf⟩
  rw [List.drop_eq_getElem_cons inside, cr, List.drop_eq_getElem_cons insideNext, lf]

theorem header_complete {lead : UInt8} {max value used : Nat} {rest : Bytes}
    (small : max ≤ uint64Max) (accepted : header lead max rest = .complete value used) :
    ∃ digits back, IsNumeral digits ∧ numeralValue digits = value ∧
      digits.length + 3 ≤ kMaxHeader ∧ used = digits.length + 3 ∧
      rest = lead :: (digits ++ 13 :: 10 :: back) := by
  cases rest with
  | nil => cases accepted
  | cons first line =>
      have within := header_le accepted
      unfold header at accepted
      dsimp only at accepted
      by_cases apart : first ≠ lead
      · rw [if_pos apart] at accepted
        cases accepted
      · rw [if_neg apart] at accepted
        rcases not_not.mp apart with rfl
        split at accepted
        · split at accepted <;> cases accepted
        · rename_i crlf found
          split at accepted
          · cases accepted
          · rename_i number read
            have windowLength : ((first :: line).take kMaxHeader).length ≤ kMaxHeader :=
              List.length_take_le _ _
            have inside := findCrlf_le found
            rcases findCrlf_eq_some found with ⟨cr, lf⟩
            have same : number = value ∧ used = crlf + 2 := by
              split at accepted <;> cases accepted
              exact ⟨rfl, rfl⟩
            rw [same.1] at read
            rcases (fromChars_eq_some_iff small within).mp read with ⟨numeral, worth⟩
            cases crlf with
            | zero => exact absurd rfl numeral.nonempty
            | succ index =>
                rw [List.getElem?_take_of_lt (by omega), List.getElem?_cons_succ] at cr
                rw [List.getElem?_take_of_lt (by omega), List.getElem?_cons_succ] at lf
                have digits : (((first :: line).take kMaxHeader).take (index + 1)).drop 1 =
                    line.take index := by
                  rw [List.take_take, Nat.min_eq_left (by omega), List.take_succ_cons,
                    List.drop_one, List.tail_cons]
                rw [digits] at numeral worth
                have length : (line.take index).length = index := by
                  rw [List.length_take_of_le]
                  rw [List.length_take, List.length_cons] at inside
                  omega
                refine ⟨line.take index, line.drop (index + 2), numeral, worth, by omega, ?_, ?_⟩
                · rw [same.2, length]
                · rw [← drop_of_getElem? cr lf, List.take_append_drop]

theorem header_take {lead : UInt8} {max value used : Nat} {rest : Bytes} (notCr : lead ≠ 13)
    (small : max ≤ uint64Max) (accepted : header lead max rest = .complete value used) :
    header lead max (rest.take used) = .complete value used := by
  have within := header_le accepted
  rcases header_complete small accepted with ⟨digits, back, numeral, rfl, room, rfl, rfl⟩
  have layout : lead :: (digits ++ 13 :: 10 :: back) = lead :: (digits ++ crlf) ++ back := by
    rw [List.cons_append, List.append_assoc]
    rfl
  have length : (lead :: (digits ++ crlf)).length = digits.length + 3 := by
    simp [crlf]
  rw [layout, List.take_left' length, header_numeral notCr small numeral within room, length]

theorem header_completed {lead : UInt8} {max : Nat} {line : Bytes} (notCr : lead ≠ 13)
    (small : max ≤ uint64Max) (narrow : (lead :: line).length < kMaxHeader)
    (isOpen : HeaderOpen max line) :
    ∃ more value, header lead max (lead :: line ++ more) =
      .complete value (lead :: line ++ more).length := by
  rcases isOpen with rfl | ⟨digits, numeral, within, ⟨rfl, room⟩ | rfl⟩
  · have zero : IsNumeral (ascii "0") := by
      refine ⟨by decide, fun byte member => ?_⟩
      obtain rfl : byte = 48 := List.mem_singleton.mp member
      decide
    exact ⟨ascii "0" ++ crlf, _, header_numeral notCr small zero (Nat.zero_le _) (by decide)⟩
  · exact ⟨crlf, _, header_numeral notCr small numeral within room⟩
  · have room : digits.length + 3 ≤ kMaxHeader := by
      simp only [List.length_cons, List.length_append, List.length_nil] at narrow
      omega
    have layout : lead :: (digits ++ [13]) ++ [10] = lead :: (digits ++ crlf) := by
      rw [List.cons_append, List.append_assoc]
      rfl
    refine ⟨[10], numeralValue digits, ?_⟩
    rw [layout]
    exact header_numeral notCr small numeral within room

theorem headerOpen_of_complete {lead : UInt8} {max value used : Nat} {line more : Bytes}
    (notCr : lead ≠ 13) (small : max ≤ uint64Max) (absent : findCrlf (lead :: line) = none)
    (accepted : header lead max (lead :: line ++ more) = .complete value used) :
    HeaderOpen max line := by
  have within := header_le accepted
  rcases header_complete small accepted with ⟨digits, back, numeral, rfl, room, -, layout⟩
  rw [List.cons_append, List.cons.injEq] at layout
  rcases List.append_eq_append_iff.mp layout.2 with ⟨later, rfl, -⟩ | ⟨ended, rfl, ending⟩
  · cases line with
    | nil => exact .inl rfl
    | cons byte others =>
        have front : IsNumeral (byte :: others) :=
          ⟨List.cons_ne_nil _ _, fun other member =>
            numeral.digits other (List.mem_append_left later member)⟩
        refine .inr ⟨byte :: others, front, (numeralValue_le_append _ later).trans within,
          .inl ⟨rfl, ?_⟩⟩
        rw [List.length_append] at room
        omega
  · rcases ended with _ | ⟨cr, _ | ⟨lf, others⟩⟩
    · exact .inr ⟨digits, numeral, within, .inl ⟨List.append_nil _, room⟩⟩
    · rw [List.singleton_append, List.cons.injEq] at ending
      rw [← ending.1]
      exact .inr ⟨digits, numeral, within, .inr rfl⟩
    · -- the line would have ended already
      rw [List.cons_append, List.cons_append, List.cons.injEq, List.cons.injEq] at ending
      have outside : 13 ∉ lead :: digits := by
        rw [List.mem_cons, not_or]
        exact ⟨Ne.symm notCr, cr_not_mem_numeral numeral⟩
      have found := findCrlf_of_not_mem (lead :: digits) others outside
      rw [ending.1, ending.2.1, List.cons_append] at found
      rw [absent] at found
      cases found

/-! ## Arrays -/

theorem parseBulks_take {count : Nat} {rest : Bytes} {pos stop : Nat} {args : List Bytes}
    (accepted : parseBulks count rest pos = .complete (pos + stop) args) :
    parseBulks count (rest.take stop) pos = .complete (pos + stop) args := by
  induction count generalizing rest pos stop args with
  | zero => exact accepted
  | succ count induction =>
      rw [parseBulks] at accepted ⊢
      cases head : header 36 kMaxBulk rest with
      | needMore =>
          rw [head] at accepted
          cases accepted
      | malformed =>
          rw [head] at accepted
          cases accepted
      | complete len used =>
          rw [head] at accepted
          have inside := (header_used head).2
          dsimp only at accepted
          by_cases short : (List.drop used rest).length < len + 2
          · rw [if_pos short] at accepted
            cases accepted
          · rw [if_neg short] at accepted
            by_cases unterminated : (List.drop used rest)[len]? ≠ some 13 ∨
                (List.drop used rest)[len + 1]? ≠ some 10
            · rw [if_pos unterminated] at accepted
              cases accepted
            · rw [if_neg unterminated] at accepted
              cases parsed : parseBulks count ((rest.drop used).drop (len + 2))
                  (pos + used + len + 2) with
              | needMore =>
                  rw [parsed] at accepted
                  cases accepted
              | malformed =>
                  rw [parsed] at accepted
                  cases accepted
              | complete after others =>
                  rw [parsed] at accepted
                  injection accepted with same args
                  rcases parseBulks_stop parsed with ⟨least, most⟩
                  obtain ⟨more, rfl⟩ : ∃ more, stop = used + len + 2 + more :=
                    ⟨stop - (used + len + 2), by omega⟩
                  have part : rest.take (used + len + 2 + more) =
                      rest.take used ++ (rest.drop used).take (len + 2 + more) := by
                    rw [← List.take_add]
                    congr 1
                    omega
                  have body : (rest.take (used + len + 2 + more)).drop used =
                      (rest.drop used).take (len + 2 + more) := by
                    rw [part, List.drop_left' (List.length_take_of_le inside)]
                  have header : header 36 kMaxBulk (rest.take (used + len + 2 + more)) =
                      .complete len used := by
                    rw [part, header_append, header_take (by decide) (by decide) head]
                    rw [header_take (by decide) (by decide) head]
                    exact Header.noConfusion
                  rw [header]
                  dsimp only
                  rw [body]
                  generalize rest.drop used = body at short unterminated parsed most args
                  rw [List.length_drop] at most
                  have length : (body.take (len + 2 + more)).length = len + 2 + more :=
                    List.length_take_of_le (by omega)
                  rw [if_neg (by omega), List.getElem?_take_of_lt (by omega),
                    List.getElem?_take_of_lt (by omega), if_neg unterminated, List.drop_take,
                    Nat.add_sub_cancel_left]
                  rw [show after = pos + used + len + 2 + more by omega] at parsed
                  rw [induction parsed, List.take_take, Nat.min_eq_left (by omega)]
                  dsimp only
                  rw [args]
                  congr 1
                  omega

theorem parse_take {buf : Bytes} {stop : Nat} {tokens : List Bytes}
    (accepted : parse buf 0 = .complete stop tokens) :
    parse (buf.take stop) 0 = .complete stop tokens := by
  unfold parse at accepted ⊢
  rw [List.drop_zero] at accepted ⊢
  dsimp only at accepted ⊢
  cases head : header 42 kMaxArgs buf with
  | needMore =>
      rw [head] at accepted
      cases accepted
  | malformed =>
      rw [head] at accepted
      cases accepted
  | complete count used =>
      rw [head] at accepted
      have inside := (header_used head).2
      rcases parseBulks_stop accepted with ⟨least, most⟩
      obtain ⟨more, rfl⟩ : ∃ more, stop = 0 + used + more := ⟨stop - used, by omega⟩
      have part : buf.take (0 + used + more) = buf.take used ++ (buf.drop used).take more := by
        rw [← List.take_add, Nat.zero_add]
      have header : header 42 kMaxArgs (buf.take (0 + used + more)) = .complete count used := by
        have alone := header_take (by decide) (by decide) head
        rw [part, header_append, alone]
        rw [alone]
        exact Header.noConfusion
      rw [header]
      dsimp only
      rw [part, List.drop_left' (List.length_take_of_le inside), parseBulks_take accepted]

theorem isArray_take {buf : Bytes} {stop : Nat} {tokens : List Bytes}
    (accepted : parse buf 0 = .complete stop tokens) : IsArray (buf.take stop) tokens := by
  rw [IsArray, parse_take accepted, List.length_take_of_le (parse_stop accepted).2]

theorem IsArray.parse_append {bytes : Bytes} {tokens : List Bytes} (array : IsArray bytes tokens)
    (back : Bytes) : parse (bytes ++ back) 0 = .complete bytes.length tokens := by
  rw [Resp.parse_append back (Nat.zero_le _) (by rw [array]; exact Parsed.noConfusion), array]

theorem IsArray.unique {bytes other rest more : Bytes} {tokens others : List Bytes}
    (array : IsArray bytes tokens) (second : IsArray other others)
    (equal : bytes ++ rest = other ++ more) :
    bytes = other ∧ tokens = others ∧ rest = more := by
  have read := array.parse_append rest
  rw [equal, second.parse_append more, Parsed.complete.injEq] at read
  rcases List.append_inj equal read.1.symm with ⟨rfl, rfl⟩
  exact ⟨rfl, read.2.symm, rfl⟩

theorem CutShort.waits {bytes : Bytes} (cut : CutShort bytes) : parse bytes 0 = .needMore := by
  rcases cut with ⟨more, tokens, lacking, array⟩
  by_contra decided
  have same := Resp.parse_append more (Nat.zero_le _) decided
  rw [array] at same
  have within := (parse_stop same.symm).2
  rw [List.length_append] at within
  exact lacking (List.length_eq_zero_iff.mp (by omega))

/-! ## What is missing -/

/-- The strings of an array that end before the array does: in a header line that is open, in
the bytes of a string, or between the two bytes that end it. -/
def BulksOpen : Nat → Bytes → Prop
  | 0, _ => False
  | count + 1, rest =>
      match header 36 kMaxBulk rest with
      | .needMore => HeaderOpen kMaxBulk rest.tail
      | .malformed => False
      | .complete len used =>
          let body := rest.drop used
          if body.length < len + 2 then body.length ≤ len ∨ body[len]? = some 13
          else BulksOpen count (body.drop (len + 2))

def TailOpen (tail : Bytes) : Prop :=
  match header 42 kMaxArgs tail with
  | .needMore => HeaderOpen kMaxArgs tail.tail
  | .malformed => False
  | .complete count used => BulksOpen count (tail.drop used)

/-- The strings that are still missing may all be empty. -/
def empties (count : Nat) : Bytes :=
  (List.replicate count []).flatMap bulk

theorem parseBulks_empties (count pos : Nat) :
    parseBulks count (empties count) pos =
      .complete (pos + (empties count).length) (List.replicate count []) := by
  have small : ∀ arg ∈ List.replicate count ([] : Bytes), arg.length ≤ kMaxBulk := by
    intro arg member
    rw [List.eq_of_mem_replicate member]
    exact Nat.zero_le _
  have parsed := parseBulks_encoded (List.replicate count []) [] pos small
  rw [List.length_replicate, List.append_nil] at parsed
  exact parsed

theorem parseBulks_finish {count len used pos : Nat} {rest more : Bytes} (text : Bytes)
    (head : header 36 kMaxBulk rest = .complete len used) (length : text.length = len)
    (finish : rest.drop used ++ more = text ++ crlf ++ empties count) :
    parseBulks (count + 1) (rest ++ more) pos =
      .complete (pos + (rest ++ more).length) (text :: List.replicate count []) := by
  have inside := (header_used head).2
  have size : (rest ++ more).length = used + len + 2 + (empties count).length := by
    have sizes := congrArg List.length finish
    have two : crlf.length = 2 := rfl
    rw [List.length_append, List.length_drop, List.length_append, List.length_append] at sizes
    rw [List.length_append]
    omega
  have body : (rest ++ more).drop used = text ++ 13 :: 10 :: empties count := by
    rw [List.drop_append_of_le_length inside, finish, List.append_assoc]
    rfl
  have cr : (text ++ 13 :: 10 :: empties count)[len]? = some 13 := by
    rw [List.getElem?_append_right (by omega), length, Nat.sub_self]
    rfl
  have lf : (text ++ 13 :: 10 :: empties count)[len + 1]? = some 10 := by
    rw [List.getElem?_append_right (by omega), length, Nat.add_sub_cancel_left]
    rfl
  have behind : (text ++ 13 :: 10 :: empties count).drop (len + 2) = empties count := by
    rw [← List.drop_drop, List.drop_left' length]
    rfl
  have enough : ¬(text ++ 13 :: 10 :: empties count).length < len + 2 := by
    simp only [List.length_append, List.length_cons]
    omega
  rw [parseBulks, header_append more (by rw [head]; exact Header.noConfusion), head]
  dsimp only
  rw [body, if_neg enough, cr, lf, if_neg (by simp), behind, parseBulks_empties,
    List.take_left' length]
  dsimp only
  rw [size]
  congr 1
  omega

theorem eq_take_append {text : Bytes} {len : Nat} (short : text.length < len + 2)
    (last : text[len]? = some 13) : text = text.take len ++ [13] := by
  rcases List.getElem?_eq_some_iff.mp last with ⟨inside, value⟩
  have ending : text.drop len = [13] := by
    rw [List.drop_eq_getElem_cons inside, value, List.drop_of_length_le (by omega)]
  rw [← ending, List.take_append_drop]

theorem parseBulks_finished {count pos : Nat} {rest : Bytes}
    (waits : parseBulks count rest pos = .needMore) (isOpen : BulksOpen count rest) :
    ∃ more args, parseBulks count (rest ++ more) pos =
      .complete (pos + (rest ++ more).length) args := by
  induction count generalizing rest pos with
  | zero => exact absurd isOpen id
  | succ count induction =>
      rw [BulksOpen] at isOpen
      rw [parseBulks] at waits
      cases head : header 36 kMaxBulk rest with
      | needMore =>
          rw [head] at isOpen
          cases rest with
          | nil =>
              refine ⟨empties (count + 1), List.replicate (count + 1) [], ?_⟩
              rw [List.nil_append]
              exact parseBulks_empties _ _
          | cons first line =>
              rcases header_needMore head with ⟨rfl, -, narrow⟩
              rcases header_completed (by decide) (by decide) narrow isOpen with ⟨more, len, ended⟩
              have finish : ((36 :: line ++ more).drop (36 :: line ++ more).length) ++
                  (List.replicate len 0 ++ crlf ++ empties count) =
                  List.replicate len 0 ++ crlf ++ empties count := by
                rw [List.drop_length, List.nil_append]
              refine ⟨more ++ (List.replicate len 0 ++ crlf ++ empties count),
                List.replicate len 0 :: List.replicate count [], ?_⟩
              rw [← List.append_assoc]
              exact parseBulks_finish _ ended List.length_replicate finish
      | malformed =>
          rw [head] at isOpen
          exact absurd isOpen id
      | complete len used =>
          rw [head] at isOpen waits
          have inside := (header_used head).2
          have size : (rest.drop used).length = rest.length - used := List.length_drop
          dsimp only at isOpen waits
          by_cases short : (rest.drop used).length < len + 2
          · rw [if_pos short] at isOpen
            by_cases within : (rest.drop used).length ≤ len
            · -- the string goes on
              refine ⟨List.replicate (len - (rest.drop used).length) 0 ++ crlf ++ empties count, _,
                parseBulks_finish (rest.drop used ++
                  List.replicate (len - (rest.drop used).length) 0) head ?_ ?_⟩
              · rw [List.length_append, List.length_replicate]
                omega
              · rw [List.append_assoc, List.append_assoc, List.append_assoc]
            · -- only the last byte of its end is missing
              have cr := isOpen.resolve_left within
              have ends := eq_take_append short cr
              refine ⟨10 :: empties count, (rest.drop used).take len :: List.replicate count [],
                parseBulks_finish _ head (List.length_take_of_le (by omega)) ?_⟩
              generalize rest.drop used = body at ends ⊢
              conv => lhs; rw [ends]
              rw [List.append_assoc, List.append_assoc]
              rfl
          · rw [if_neg short] at isOpen waits
            by_cases unterminated : (List.drop used rest)[len]? ≠ some 13 ∨
                (List.drop used rest)[len + 1]? ≠ some 10
            · rw [if_pos unterminated] at waits
              cases waits
            · rw [if_neg unterminated] at waits
              have later : parseBulks count ((rest.drop used).drop (len + 2))
                  (pos + used + len + 2) = .needMore := by
                cases parsed : parseBulks count ((rest.drop used).drop (len + 2))
                    (pos + used + len + 2) with
                | complete stop args =>
                    rw [parsed] at waits
                    cases waits
                | needMore => rfl
                | malformed =>
                    rw [parsed] at waits
                    cases waits
              rcases induction later isOpen with ⟨more, args, finished⟩
              refine ⟨more, (rest.drop used).take len :: args, ?_⟩
              rw [parseBulks, header_append more (by rw [head]; exact Header.noConfusion), head]
              dsimp only
              rw [List.drop_append_of_le_length inside]
              have enough : ¬(rest.drop used ++ more).length < len + 2 := by
                rw [List.length_append]
                omega
              have total : pos + used + len + 2 + ((rest.drop used).drop (len + 2) ++ more).length =
                  pos + (rest ++ more).length := by
                rw [List.length_append, List.length_append, List.length_drop]
                omega
              rw [if_neg enough, List.getElem?_append_left (by omega),
                List.getElem?_append_left (by omega), if_neg unterminated,
                List.drop_append_of_le_length (by omega),
                List.take_append_of_le_length (by omega), finished, total]

theorem bulksOpen_of_finished {count pos stop : Nat} {rest more : Bytes} {args : List Bytes}
    (waits : parseBulks count rest pos = .needMore)
    (finished : parseBulks count (rest ++ more) pos = .complete stop args) :
    BulksOpen count rest := by
  induction count generalizing rest pos stop args with
  | zero => cases waits
  | succ count induction =>
      rw [parseBulks] at waits finished
      rw [BulksOpen]
      cases head : header 36 kMaxBulk rest with
      | malformed =>
          rw [head] at waits
          cases waits
      | needMore =>
          cases ended : header 36 kMaxBulk (rest ++ more) with
          | needMore =>
              rw [ended] at finished
              cases finished
          | malformed =>
              rw [ended] at finished
              cases finished
          | complete len used =>
              cases rest with
              | nil => exact .inl rfl
              | cons first line =>
                  rcases header_needMore head with ⟨rfl, absent, -⟩
                  exact headerOpen_of_complete (by decide) (by decide) absent ended
      | complete len used =>
          rw [head] at waits
          rw [header_append more (by rw [head]; exact Header.noConfusion), head] at finished
          dsimp only at waits finished ⊢
          rw [List.drop_append_of_le_length (header_used head).2] at finished
          generalize rest.drop used = body at waits finished ⊢
          by_cases short : body.length < len + 2
          · rw [if_pos short]
            by_cases within : body.length ≤ len
            · exact .inl within
            · refine .inr ?_
              by_cases few : (body ++ more).length < len + 2
              · rw [if_pos few] at finished
                cases finished
              · rw [if_neg few] at finished
                by_cases unterminated : (body ++ more)[len]? ≠ some 13 ∨
                    (body ++ more)[len + 1]? ≠ some 10
                · rw [if_pos unterminated] at finished
                  cases finished
                · rw [if_neg unterminated] at finished
                  rw [not_or, not_not, List.getElem?_append_left (by omega)] at unterminated
                  exact unterminated.1
          · have enough : ¬(body ++ more).length < len + 2 := by
              rw [List.length_append]
              omega
            rw [if_neg short] at waits ⊢
            rw [if_neg enough, List.getElem?_append_left (by omega),
              List.getElem?_append_left (by omega),
              List.drop_append_of_le_length (by omega)] at finished
            by_cases unterminated : body[len]? ≠ some 13 ∨ body[len + 1]? ≠ some 10
            · rw [if_pos unterminated] at waits
              cases waits
            · rw [if_neg unterminated] at waits
              rw [if_neg unterminated] at finished
              cases parsed : parseBulks count (body.drop (len + 2)) (pos + used + len + 2) with
              | complete after others =>
                  rw [parsed] at waits
                  cases waits
              | malformed =>
                  rw [parsed] at waits
                  cases waits
              | needMore =>
                  cases later : parseBulks count (body.drop (len + 2) ++ more)
                      (pos + used + len + 2) with
                  | complete after others => exact induction parsed later
                  | malformed =>
                      rw [later] at finished
                      cases finished
                  | needMore =>
                      rw [later] at finished
                      cases finished

theorem parse_append_of_header {tail : Bytes} {count used : Nat} (more : Bytes)
    (head : header 42 kMaxArgs tail = .complete count used) :
    parse (tail ++ more) 0 = parseBulks count (tail.drop used ++ more) used := by
  unfold parse
  dsimp only
  rw [List.drop_zero, header_append more (by rw [head]; exact Header.noConfusion), head]
  dsimp only
  rw [List.drop_append_of_le_length (header_used head).2, Nat.zero_add]

theorem header_of_parse {buf : Bytes} {stop : Nat} {tokens : List Bytes}
    (accepted : parse buf 0 = .complete stop tokens) :
    ∃ count used, header 42 kMaxArgs buf = .complete count used := by
  unfold parse at accepted
  rw [List.drop_zero] at accepted
  dsimp only at accepted
  cases head : header 42 kMaxArgs buf with
  | complete count used => exact ⟨count, used, rfl⟩
  | needMore =>
      rw [head] at accepted
      cases accepted
  | malformed =>
      rw [head] at accepted
      cases accepted

/-- Where the parser waits, what it has read can become an array exactly when it is open. -/
theorem cutShort_iff {tail : Bytes} (waits : parse tail 0 = .needMore) :
    CutShort tail ↔ TailOpen tail := by
  have never : ∀ tokens, ¬IsArray tail tokens := by
    intro tokens array
    rw [IsArray, waits] at array
    cases array
  unfold TailOpen
  cases head : header 42 kMaxArgs tail with
  | malformed =>
      refine iff_of_false ?_ id
      rintro ⟨more, tokens, -, array⟩
      rcases header_of_parse array with ⟨count, used, ended⟩
      rw [header_append more (by rw [head]; exact Header.noConfusion), head] at ended
      cases ended
  | needMore =>
      cases tail with
      | nil => exact iff_of_true ⟨ascii "*0\r\n", [], by decide, by unfold IsArray; decide⟩ (.inl rfl)
      | cons first line =>
          rcases header_needMore head with ⟨rfl, absent, narrow⟩
          constructor
          · rintro ⟨more, tokens, -, array⟩
            rcases header_of_parse array with ⟨count, used, ended⟩
            exact headerOpen_of_complete (by decide) (by decide) absent ended
          · intro isOpen
            rcases header_completed (by decide) (by decide) narrow isOpen with ⟨more, count, ended⟩
            have array : IsArray (42 :: line ++ (more ++ empties count)) (List.replicate count []) := by
              rw [IsArray, ← List.append_assoc, parse_append_of_header _ ended, List.drop_length,
                List.nil_append, parseBulks_empties, ← List.length_append]
            refine ⟨more ++ empties count, List.replicate count [], ?_, array⟩
            intro nothing
            rw [nothing, List.append_nil] at array
            exact never _ array
  | complete count used =>
      dsimp only
      have inside := (header_used head).2
      have behind := parse_append_of_header [] head
      rw [List.append_nil, List.append_nil, waits] at behind
      constructor
      · rintro ⟨more, tokens, -, array⟩
        rw [IsArray, parse_append_of_header more head] at array
        exact bulksOpen_of_finished behind.symm array
      · intro isOpen
        rcases parseBulks_finished behind.symm isOpen with ⟨more, args, finished⟩
        have array : IsArray (tail ++ more) args := by
          rw [IsArray, parse_append_of_header more head, finished]
          congr 1
          simp only [List.length_append, List.length_drop]
          omega
        refine ⟨more, args, ?_, array⟩
        rintro rfl
        rw [List.append_nil] at array
        exact never _ array

end SomniumDB.Resp
