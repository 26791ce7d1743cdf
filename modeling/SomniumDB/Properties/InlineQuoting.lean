import SomniumDB.Core.RespCodec
import SomniumDB.Core.RespIndex

/-! # Quoting in inline commands

Arguments written in quotes are read as what they stand for, however each byte is written.
A line is rejected exactly when a quote stays open or something other than a space follows
a closing quote. -/

namespace SomniumDB.Resp

open Bytes

/-! ## How arguments are written -/

/-- A byte written literally or as one of the escapes, before the text `rest`. -/
inductive Spells (rest : Bytes) : UInt8 → Bytes → Prop
  | literal {byte} (notQuote : byte ≠ 34) (notBackslash : byte ≠ 92) (notNewline : byte ≠ 10) :
      Spells rest byte [byte]
  | named {name} (isName : name ∈ ascii "nrtba") : Spells rest (escaped name) [92, name]
  | hex {high low} (isHigh : isHex high = true) (isLow : isHex low = true) :
      Spells rest (hexValue high * 16 + hexValue low) [92, 120, high, low]
  | itself {byte} (noName : byte ∉ ascii "nrtba")
      (noHex : ¬ (byte = 120 ∧ startsHexPair rest = true)) : Spells rest byte [92, byte]

/-- An argument between double quotes, byte after byte. -/
inductive DoubleQuoted : Bytes → Bytes → Prop
  | nil : DoubleQuoted [] []
  | cons {byte arg text body} (first : Spells body byte text) (others : DoubleQuoted arg body) :
      DoubleQuoted (byte :: arg) (text ++ body)

/-- An argument with its quotes. In single quotes it stands for itself. -/
inductive Quoted : Bytes → Bytes → Prop
  | double {arg body} (written : DoubleQuoted arg body) : Quoted arg (34 :: (body ++ [34]))
  | single {arg} (noQuote : (39 : UInt8) ∉ arg) (noBackslash : (92 : UInt8) ∉ arg) :
      Quoted arg (39 :: (arg ++ [39]))

def Spaces (text : Bytes) : Prop :=
  ∀ byte ∈ text, isSpace byte = true

instance (text : Bytes) : Decidable (Spaces text) :=
  decidable_of_iff (text.all isSpace = true) List.all_eq_true

/-- Arguments with spaces between them, and perhaps behind the last. -/
inductive Line : List Bytes → Bytes → Prop
  | nil : Line [] []
  | last {arg text gap} (quoted : Quoted arg text) (spaces : Spaces gap) :
      Line [arg] (text ++ gap)
  | cons {arg text gap next args line} (quoted : Quoted arg text) (spaces : Spaces gap)
      (apart : gap ≠ []) (others : Line (next :: args) line) :
      Line (arg :: next :: args) (text ++ (gap ++ line))

/-! ## One argument -/

theorem escaped_itself {byte : UInt8} (noName : byte ∉ ascii "nrtba") : escaped byte = byte := by
  have names : ascii "nrtba" = [110, 114, 116, 98, 97] := by decide
  rw [names] at noName
  simp only [List.mem_cons, List.not_mem_nil, or_false, not_or] at noName
  unfold escaped
  simp only [noName, if_false]

/-- The closing quote is no hexadecimal digit, so a pair of digits lies within the quotes. -/
theorem startsHexPair_quote (body after : Bytes) :
    startsHexPair (body ++ 34 :: after) = startsHexPair body := by
  match body with
  | [] =>
      cases after with
      | nil => rfl
      | cons next others => rfl
  | [high] =>
      change (isHex high && isHex 34) = false
      rw [show isHex 34 = false from rfl, Bool.and_false]
  | high :: low :: others => rfl

theorem scanArg_plain {quote ch : UInt8} (isOpen : quote ≠ 0) (notQuote : ch ≠ quote)
    (notBackslash : ch ≠ 92) (arg rest : Bytes) :
    scanArg quote arg (ch :: rest) = scanArg quote (arg ++ [ch]) rest := by
  rw [scanArg.eq_def]
  dsimp only
  rw [if_neg isOpen, if_neg notQuote, if_neg notBackslash]

/-- A backslash between double quotes, unless two digits follow its `x`. -/
theorem scanArg_escape {next : UInt8} {tail : Bytes}
    (noHex : ¬ (next = 120 ∧ startsHexPair tail = true)) (arg : Bytes) :
    scanArg 34 arg (92 :: next :: tail) = scanArg 34 (arg ++ [escaped next]) tail := by
  have isOpen : (34 : UInt8) ≠ 0 := by decide
  have notQuote : (92 : UInt8) ≠ 34 := by decide
  have double : (34 : UInt8) ≠ 39 := by decide
  rw [scanArg.eq_def]
  dsimp only
  rw [if_neg isOpen, if_neg notQuote, if_pos rfl, if_neg double, if_neg noHex]

theorem scanArg_hex {high low : UInt8} (isHigh : isHex high = true) (isLow : isHex low = true)
    (arg after : Bytes) :
    scanArg 34 arg (92 :: 120 :: high :: low :: after) =
      scanArg 34 (arg ++ [hexValue high * 16 + hexValue low]) after := by
  have isOpen : (34 : UInt8) ≠ 0 := by decide
  have notQuote : (92 : UInt8) ≠ 34 := by decide
  have double : (34 : UInt8) ≠ 39 := by decide
  have pair : startsHexPair (high :: low :: after) = true := by
    change (isHex high && isHex low) = true
    rw [isHigh, isLow]
    rfl
  rw [scanArg, if_neg isOpen, if_neg notQuote, if_pos rfl, if_neg double, if_pos ⟨rfl, pair⟩]

theorem scanArg_spells {body : Bytes} {byte : UInt8} {text : Bytes} (spells : Spells body byte text)
    (arg after : Bytes) :
    scanArg 34 arg (text ++ (body ++ 34 :: after)) =
      scanArg 34 (arg ++ [byte]) (body ++ 34 :: after) := by
  cases spells with
  | literal notQuote notBackslash _ =>
      exact scanArg_plain (by decide) notQuote notBackslash arg _
  | @named name isName =>
      refine scanArg_escape (fun both => ?_) arg
      rw [both.1] at isName
      exact absurd isName (by decide)
  | hex isHigh isLow => exact scanArg_hex isHigh isLow arg _
  | itself noName noHex =>
      rw [← startsHexPair_quote body after] at noHex
      have read := scanArg_escape noHex arg
      rw [escaped_itself noName] at read
      exact read

theorem scanArg_doubleQuoted {arg body : Bytes} (written : DoubleQuoted arg body)
    (front after : Bytes) :
    scanArg 34 front (body ++ 34 :: after) = scanArg 34 (front ++ arg) (34 :: after) := by
  induction written generalizing front with
  | nil => rw [List.append_nil, List.nil_append]
  | cons first others induction =>
      rw [List.append_assoc, scanArg_spells first, induction, List.append_assoc]
      rfl

theorem scanArg_singleQuoted {arg : Bytes} (noQuote : (39 : UInt8) ∉ arg)
    (noBackslash : (92 : UInt8) ∉ arg) (front after : Bytes) :
    scanArg 39 front (arg ++ 39 :: after) = scanArg 39 (front ++ arg) (39 :: after) := by
  induction arg generalizing front with
  | nil => rw [List.append_nil, List.nil_append]
  | cons byte rest induction =>
      rw [List.mem_cons, not_or] at noQuote noBackslash
      rw [List.cons_append,
        scanArg_plain (by decide) (Ne.symm noQuote.1) (Ne.symm noBackslash.1),
        induction noQuote.2 noBackslash.2, List.append_assoc]
      rfl

/-- The closing quote ends the argument before a space and at the end of the line. -/
theorem scanArg_close {quote : UInt8} (isOpen : quote ≠ 0) {after : Bytes}
    (apart : after.head?.all isSpace = true) (arg : Bytes) :
    scanArg quote arg (quote :: after) = some (arg, after) := by
  rw [scanArg.eq_def]
  dsimp only
  rw [if_neg isOpen, if_pos rfl, if_pos apart, scanArg.eq_def]
  cases after with
  | nil => rfl
  | cons next others => exact (if_pos rfl).trans (if_pos apart)

/-- A quote opens, outside of the quotes. -/
theorem scanArg_open {quote : UInt8} (isQuote : quote = 34 ∨ quote = 39) (arg rest : Bytes) :
    scanArg 0 arg (quote :: rest) = scanArg quote arg rest := by
  have noSpace : isSpace quote = false := by
    rcases isQuote with rfl | rfl <;> rfl
  rw [scanArg.eq_def]
  dsimp only
  rw [if_pos rfl, noSpace, if_neg Bool.false_ne_true, if_pos isQuote]

theorem scanArg_quoted {arg text : Bytes} (quoted : Quoted arg text) {after : Bytes}
    (apart : after.head?.all isSpace = true) :
    scanArg 0 [] (text ++ after) = some (arg, after) := by
  cases quoted with
  | double written =>
      rw [List.cons_append, List.append_assoc, List.singleton_append, scanArg_open (.inl rfl),
        scanArg_doubleQuoted written, List.nil_append]
      exact scanArg_close (by decide) apart arg
  | single noQuote noBackslash =>
      rw [List.cons_append, List.append_assoc, List.singleton_append, scanArg_open (.inr rfl),
        scanArg_singleQuoted noQuote noBackslash, List.nil_append]
      exact scanArg_close (by decide) apart arg

/-! ## A whole line -/

theorem quoted_starts {arg text : Bytes} (quoted : Quoted arg text) :
    ∃ quote rest, text = quote :: rest ∧ isSpace quote = false := by
  cases quoted with
  | double written => exact ⟨34, _, rfl, rfl⟩
  | single noQuote noBackslash => exact ⟨39, _, rfl, rfl⟩

theorem dropWhile_spaces {lead : Bytes} (spaces : Spaces lead) (text : Bytes) :
    (lead ++ text).dropWhile isSpace = text.dropWhile isSpace := by
  induction lead with
  | nil => rfl
  | cons byte rest induction =>
      rw [List.cons_append, List.dropWhile_cons_of_pos (spaces byte List.mem_cons_self)]
      exact induction fun other member => spaces other (List.mem_cons_of_mem byte member)

/-- One round reads one argument. -/
theorem splitInlineLoop_quoted {arg text lead after : Bytes} (spaces : Spaces lead)
    (quoted : Quoted arg text) (apart : after.head?.all isSpace = true) (fuel : Nat) :
    splitInlineLoop (fuel + 1) (lead ++ (text ++ after)) =
      (splitInlineLoop fuel after).map (arg :: ·) := by
  rcases quoted_starts quoted with ⟨quote, rest, rfl, noSpace⟩
  have start : (lead ++ (quote :: rest ++ after)).dropWhile isSpace = quote :: rest ++ after := by
    rw [dropWhile_spaces spaces, List.cons_append,
      List.dropWhile_cons_of_neg (by rw [noSpace]; exact Bool.false_ne_true)]
  have read := scanArg_quoted quoted apart
  rw [splitInlineLoop, start]
  rw [List.cons_append] at read ⊢
  dsimp only
  rw [read]

theorem splitInlineLoop_spaces {gap : Bytes} (spaces : Spaces gap) (fuel : Nat) :
    splitInlineLoop (fuel + 1) gap = some [] := by
  have all := dropWhile_spaces spaces []
  rw [List.append_nil] at all
  rw [splitInlineLoop, all]
  rfl

theorem head_spaces {gap : Bytes} (spaces : Spaces gap) (line : Bytes)
    (apart : gap ≠ [] ∨ line = []) : (gap ++ line).head?.all isSpace = true := by
  cases gap with
  | nil =>
      rcases apart.resolve_left (not_not.mpr rfl) with rfl
      rfl
  | cons byte rest => exact spaces byte List.mem_cons_self

theorem splitInlineLoop_line {args : List Bytes} {line lead : Bytes} (written : Line args line)
    (spaces : Spaces lead) {fuel : Nat} (enough : args.length < fuel) :
    splitInlineLoop fuel (lead ++ line) = some args := by
  induction written generalizing lead fuel with
  | nil =>
      rcases Nat.exists_eq_succ_of_ne_zero (Nat.ne_zero_of_lt enough) with ⟨fuel, rfl⟩
      rw [List.append_nil]
      exact splitInlineLoop_spaces spaces fuel
  | @last arg text gap quoted gapSpaces =>
      rcases Nat.exists_eq_add_of_lt enough with ⟨fuel, rfl⟩
      have apart := head_spaces gapSpaces [] (.inr rfl)
      rw [List.append_nil] at apart
      rw [splitInlineLoop_quoted spaces quoted apart, List.length_singleton, Nat.add_comm 1,
        splitInlineLoop_spaces gapSpaces]
      rfl
  | @cons arg text gap next args line quoted gapSpaces apart others induction =>
      rcases Nat.exists_eq_succ_of_ne_zero (Nat.ne_zero_of_lt enough) with ⟨fuel, rfl⟩
      rw [splitInlineLoop_quoted spaces quoted (head_spaces gapSpaces line (.inl apart)),
        induction gapSpaces (Nat.lt_of_succ_lt_succ enough)]
      rfl

/-- There are no more arguments than bytes. -/
theorem Line.length_le {args : List Bytes} {line : Bytes} (written : Line args line) :
    args.length ≤ line.length := by
  induction written with
  | nil => exact Nat.le_refl 0
  | last quoted spaces =>
      rcases quoted_starts quoted with ⟨quote, rest, rfl, -⟩
      simp
  | cons quoted spaces apart others induction =>
      rcases quoted_starts quoted with ⟨quote, rest, rfl, -⟩
      simp only [List.length_cons, List.length_append] at induction ⊢
      omega

theorem splitInline_line {args : List Bytes} {line lead : Bytes} (written : Line args line)
    (spaces : Spaces lead) : splitInline (lead ++ line) = some args := by
  refine splitInlineLoop_line written spaces ?_
  have fewer := written.length_le
  rw [List.length_append]
  omega

/-! ## Rejected lines -/

/-- Where a scan of the line stands. -/
inductive Mode
  | outside
  | inside (quote : UInt8)
  /-- Behind a backslash within quotes. -/
  | escape (quote : UInt8)
  deriving DecidableEq

def Mode.next : Mode → UInt8 → Mode
  | outside, ch => if ch = 34 ∨ ch = 39 then inside ch else outside
  | inside quote, ch =>
      if ch = quote then outside else if ch = 92 then escape quote else inside quote
  | escape quote, _ => inside quote

/-- A quote that opens is not closed. -/
def Unclosed (line : Bytes) : Prop :=
  line.foldl Mode.next .outside ≠ .outside

/-- A closing quote is followed by something other than a space. -/
def ClosedBadly (line : Bytes) : Prop :=
  ∃ front quote ch rest, line = front ++ quote :: ch :: rest ∧
    front.foldl Mode.next .outside = .inside quote ∧ isSpace ch = false

/-- Whether the byte may stand there: behind a closing quote comes a space or the end. -/
def Mode.allows (mode : Mode) (ch : UInt8) (rest : Bytes) : Bool :=
  mode != .inside ch || rest.head?.all isSpace

/-- From here on every quote is closed, and closed well. -/
def wellQuoted : Mode → Bytes → Bool
  | mode, [] => mode == .outside
  | mode, ch :: rest => mode.allows ch rest && wellQuoted (mode.next ch) rest

theorem wellQuoted_eq_true_iff (mode : Mode) (line : Bytes) :
    wellQuoted mode line = true ↔
      line.foldl Mode.next mode = .outside ∧
        ∀ front quote ch rest, line = front ++ quote :: ch :: rest →
          front.foldl Mode.next mode = .inside quote → isSpace ch = true := by
  induction line generalizing mode with
  | nil =>
      simp [wellQuoted]
  | cons first others induction =>
      rw [wellQuoted, Bool.and_eq_true, induction, List.foldl_cons]
      constructor
      · rintro ⟨allowed, ends, later⟩
        refine ⟨ends, fun front quote ch rest split inside => ?_⟩
        cases front with
        | nil =>
            cases split
            have within : mode = .inside first := inside
            simpa [Mode.allows, within] using allowed
        | cons byte front =>
            cases split
            exact later front quote ch rest rfl inside
      · rintro ⟨ends, all⟩
        refine ⟨?_, ends, fun front quote ch rest split inside => ?_⟩
        · unfold Mode.allows
          by_cases within : mode = .inside first
          · cases others with
            | nil => simp
            | cons ch rest =>
                have space := all [] first ch rest rfl within
                simp [space]
          · simp [within]
        · exact all (first :: front) quote ch rest (by rw [split]; rfl) inside

theorem rejected_iff (line : Bytes) :
    wellQuoted .outside line = false ↔ Unclosed line ∨ ClosedBadly line := by
  rw [← Bool.not_eq_true, wellQuoted_eq_true_iff, not_and_or]
  refine or_congr Iff.rfl ?_
  unfold ClosedBadly
  push Not
  simp only [Bool.not_eq_true]

/-- The mode of a scan with an open quote, zero for none. -/
def modeOf (quote : UInt8) : Mode :=
  if quote = 0 then .outside else .inside quote

/-! The scan, byte after byte -/

theorem wellQuoted_opens {ch : UInt8} (isQuote : ch = 34 ∨ ch = 39) (rest : Bytes) :
    wellQuoted .outside (ch :: rest) = wellQuoted (.inside ch) rest := by
  rw [wellQuoted, Mode.next, if_pos isQuote]
  rfl

theorem wellQuoted_outside {ch : UInt8} (noQuote : ¬ (ch = 34 ∨ ch = 39)) (rest : Bytes) :
    wellQuoted .outside (ch :: rest) = wellQuoted .outside rest := by
  rw [wellQuoted, Mode.next, if_neg noQuote]
  rfl

theorem wellQuoted_closes (quote : UInt8) (rest : Bytes) :
    wellQuoted (.inside quote) (quote :: rest) =
      (rest.head?.all isSpace && wellQuoted .outside rest) := by
  rw [wellQuoted, Mode.next, if_pos rfl, Mode.allows, bne_self_eq_false, Bool.false_or]

theorem wellQuoted_plain {quote ch : UInt8} (notQuote : ch ≠ quote) (notBackslash : ch ≠ 92)
    (rest : Bytes) : wellQuoted (.inside quote) (ch :: rest) = wellQuoted (.inside quote) rest := by
  have other : (Mode.inside quote != Mode.inside ch) = true := by
    rw [bne_iff_ne, ne_eq, Mode.inside.injEq]
    exact Ne.symm notQuote
  rw [wellQuoted, Mode.next, if_neg notQuote, if_neg notBackslash, Mode.allows, other,
    Bool.true_or, Bool.true_and]

theorem wellQuoted_backslash {quote : UInt8} (notBackslash : quote ≠ 92) (rest : Bytes) :
    wellQuoted (.inside quote) (92 :: rest) = wellQuoted (.escape quote) rest := by
  have other : (Mode.inside quote != Mode.inside 92) = true := by
    rw [bne_iff_ne, ne_eq, Mode.inside.injEq]
    exact notBackslash
  rw [wellQuoted, Mode.next, if_neg (Ne.symm notBackslash), if_pos rfl, Mode.allows, other,
    Bool.true_or, Bool.true_and]

theorem wellQuoted_escaped (quote ch : UInt8) (rest : Bytes) :
    wellQuoted (.escape quote) (ch :: rest) = wellQuoted (.inside quote) rest := rfl

/-- A scan that fails has met a fault, and one that succeeds has passed none. -/
def Agrees (quote : UInt8) (text : Bytes) (scanned : Option (Bytes × Bytes)) : Prop :=
  match scanned with
  | none => wellQuoted (modeOf quote) text = false
  | some (_, unread) => wellQuoted (modeOf quote) text = wellQuoted .outside unread

theorem Agrees.of_eq {quote before : UInt8} {text longer : Bytes}
    {scanned : Option (Bytes × Bytes)} (agrees : Agrees quote text scanned)
    (same : wellQuoted (modeOf before) longer = wellQuoted (modeOf quote) text) :
    Agrees before longer scanned := by
  cases scanned with
  | none => exact same.trans agrees
  | some read => exact same.trans agrees

theorem modeOf_open {quote : UInt8} (isOpen : quote ≠ 0) : modeOf quote = .inside quote :=
  if_neg isOpen

/-- Behind an escape the scan is within the quotes as before. -/
theorem wellQuoted_escape {quote : UInt8} (isOpen : quote ≠ 0) (notBackslash : quote ≠ 92)
    (next : UInt8) (tail : Bytes) :
    wellQuoted (modeOf quote) (92 :: next :: tail) = wellQuoted (modeOf quote) tail := by
  rw [modeOf_open isOpen, wellQuoted_backslash notBackslash, wellQuoted_escaped]

/-- A hexadecimal digit neither closes double quotes nor starts an escape. -/
theorem wellQuoted_digit {digit : UInt8} (isDigit : isHex digit = true) (rest : Bytes) :
    wellQuoted (.inside 34) (digit :: rest) = wellQuoted (.inside 34) rest := by
  refine wellQuoted_plain ?_ ?_ rest
  · rintro rfl
    exact absurd isDigit (by decide)
  · rintro rfl
    exact absurd isDigit (by decide)

theorem scanArg_agrees {quote : UInt8} (known : quote = 0 ∨ quote = 34 ∨ quote = 39)
    (arg text : Bytes) : Agrees quote text (scanArg quote arg text) := by
  fun_induction scanArg quote arg text with
  | case1 arg => rfl
  | case2 quote arg isOpen =>
      change wellQuoted (modeOf quote) [] = false
      rw [modeOf_open isOpen]
      rfl
  | case3 arg ch rest space => rfl
  | case4 arg ch rest space isQuote induction =>
      have isOpen : ch ≠ 0 := by
        rcases isQuote with rfl | rfl <;> decide
      refine (induction (.inr isQuote)).of_eq ?_
      rw [modeOf_open isOpen]
      exact wellQuoted_opens isQuote rest
  | case5 arg ch rest space noQuote induction =>
      exact (induction known).of_eq (wellQuoted_outside noQuote rest)
  | case6 arg quote rest apart isOpen induction =>
      refine (induction (.inl rfl)).of_eq ?_
      rw [modeOf_open isOpen, wellQuoted_closes, apart, Bool.true_and]
      rfl
  | case7 arg quote rest joined isOpen =>
      change wellQuoted (modeOf quote) (quote :: rest) = false
      rw [modeOf_open isOpen, wellQuoted_closes, Bool.eq_false_iff.mpr joined, Bool.false_and]
  | case8 quote arg isOpen notBackslash =>
      change wellQuoted (modeOf quote) [92] = false
      rw [modeOf_open isOpen, wellQuoted_backslash (Ne.symm notBackslash)]
      rfl
  | case9 arg next tail isOpen notBackslash induction =>
      exact (induction known).of_eq (wellQuoted_escape isOpen (Ne.symm notBackslash) next tail)
  | case10 quote arg isOpen next notSingle high low after notBackslash pair induction =>
      rcases (known.resolve_left isOpen).resolve_right notSingle with rfl
      have digits : isHex high = true ∧ isHex low = true := Bool.and_eq_true_iff.mp pair.2
      refine (induction known).of_eq ?_
      rw [wellQuoted_escape isOpen (Ne.symm notBackslash), modeOf_open isOpen,
        wellQuoted_digit digits.1, wellQuoted_digit digits.2]
  | case11 quote arg isOpen next tail notSingle pair short notBackslash =>
      -- a pair of digits is there
      rcases tail with _ | ⟨high, _ | ⟨low, after⟩⟩
      · exact absurd pair.2 Bool.false_ne_true
      · exact absurd pair.2 Bool.false_ne_true
      · exact absurd rfl (short high low after)
  | case12 quote arg isOpen next tail notSingle noHex notBackslash induction =>
      exact (induction known).of_eq (wellQuoted_escape isOpen (Ne.symm notBackslash) next tail)
  | case13 quote arg ch rest isOpen notQuote notBackslash induction =>
      refine (induction known).of_eq ?_
      rw [modeOf_open isOpen]
      exact wellQuoted_plain notQuote notBackslash rest

theorem isSpace_noQuote {ch : UInt8} (space : isSpace ch = true) : ¬ (ch = 34 ∨ ch = 39) := by
  rintro (rfl | rfl) <;> exact absurd space (by decide)

theorem wellQuoted_dropWhile (line : Bytes) :
    wellQuoted .outside (line.dropWhile isSpace) = wellQuoted .outside line := by
  induction line with
  | nil => rfl
  | cons ch rest induction =>
      cases space : isSpace ch with
      | false => rw [List.dropWhile_cons_of_neg (by rw [space]; exact Bool.false_ne_true)]
      | true =>
          rw [List.dropWhile_cons_of_pos space, induction,
            wellQuoted_outside (isSpace_noQuote space)]

theorem splitInlineLoop_eq_none_iff {fuel : Nat} {line : Bytes} (enough : line.length < fuel) :
    splitInlineLoop fuel line = none ↔ wellQuoted .outside line = false := by
  induction fuel generalizing line with
  | zero => exact absurd enough (Nat.not_lt_zero _)
  | succ fuel induction =>
      have shorter := (List.dropWhile_suffix isSpace (l := line)).length_le
      rw [splitInlineLoop, ← wellQuoted_dropWhile]
      cases trimmed : line.dropWhile isSpace with
      | nil => simp [wellQuoted]
      | cons ch rest =>
          have agrees := scanArg_agrees (.inl rfl) [] (ch :: rest)
          dsimp only
          cases scanned : scanArg 0 [] (ch :: rest) with
          | none =>
              rw [scanned] at agrees
              exact iff_of_true rfl agrees
          | some read =>
              rcases read with ⟨arg, unread⟩
              rw [scanned] at agrees
              have same : wellQuoted .outside (ch :: rest) = wellQuoted .outside unread := agrees
              have noSpace : isSpace ch = false := by
                have first := List.head?_dropWhile_not isSpace line
                rw [trimmed] at first
                exact Bool.eq_false_iff.mpr (by simpa using first)
              have progress := scanArg_shorter noSpace scanned
              rw [trimmed, List.length_cons] at shorter
              rw [same, Option.map_eq_none_iff]
              exact induction (by omega)

/-- Quoted arguments are read as what they stand for, and the only rejected lines are those
with an open quote or a closing quote that does not end its argument. -/
theorem inline_quoting :
    (∀ args line lead, Line args line → Spaces lead → splitInline (lead ++ line) = some args) ∧
      ∀ line, splitInline line = none ↔ Unclosed line ∨ ClosedBadly line := by
  refine ⟨fun args line lead written spaces => splitInline_line written spaces, fun line => ?_⟩
  rw [← rejected_iff]
  exact splitInlineLoop_eq_none_iff (Nat.lt_succ_self _)

/-- One argument with an escape between double quotes, and one between single quotes. -/
theorem inline_quoting_spelled :
    splitInline (ascii " \"a\\x41\"  'it is'\t") = some [ascii "aA", ascii "it is"] := by
  have letter : Spells [] 65 [92, 120, 52, 49] :=
    @Spells.hex [] 52 49 (by decide) (by decide)
  have body : DoubleQuoted [97, 65] ([97] ++ ([92, 120, 52, 49] ++ [])) :=
    .cons (.literal (by decide) (by decide) (by decide)) (.cons letter .nil)
  have single : Quoted (ascii "it is") (39 :: (ascii "it is" ++ [39])) :=
    .single (by decide) (by decide)
  have line : Line [[97, 65], ascii "it is"] _ :=
    .cons (.double body) (show Spaces (ascii "  ") by decide) (by decide)
      (.last single (show Spaces (ascii "\t") by decide))
  exact inline_quoting.1 _ _ (ascii " ") line (by decide)

end SomniumDB.Resp
