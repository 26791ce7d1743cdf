import SomniumDB.Core.RespStream
import SomniumDB.Library.Cursor

/-! # The RESP parser on a buffer (`resp.h`)

The parser and the splitter of inline commands as they move an index over the buffer. A read
outside the buffer is an outcome of its own, and so is a loop that does not come to an end;
neither occurs, and the results are those of the parser on lists. -/

namespace SomniumDB.Resp

open Bytes FsUtil Cursor

/-- `data[index]`. -/
def byteAt (data : Bytes) (index : Nat) : Except Stop UInt8 :=
  match data[index]? with
  | some byte => .ok byte
  | none => .error .outside

/-- `data.size() - index`, which must not wrap around. -/
def bytesLeft (data : Bytes) (index : Nat) : Except Stop Nat :=
  if index ≤ data.length then .ok (data.length - index) else .error .outside

theorem byteAt_drop {data rest : Bytes} {index : Nat} {byte : UInt8}
    (here : data.drop index = byte :: rest) : byteAt data index = .ok byte := by
  have first : data[index]? = some byte := by
    rw [← List.head?_drop, here]
    rfl
  rw [byteAt, first]

theorem drop_succ {data rest : Bytes} {index : Nat} {byte : UInt8}
    (here : data.drop index = byte :: rest) : data.drop (index + 1) = rest := by
  rw [← List.drop_drop, here]
  rfl

theorem lt_of_drop {data rest : Bytes} {index : Nat} {byte : UInt8}
    (here : data.drop index = byte :: rest) : index < data.length := by
  have length := congrArg List.length here
  rw [List.length_drop, List.length_cons] at length
  omega

theorem le_of_drop_nil {data : Bytes} {index : Nat} (here : data.drop index = []) :
    data.length ≤ index :=
  List.drop_eq_nil_iff.mp here

/-! ## Headers -/

/-- `window.find("\r\n")` in a window that begins at `start`, with so many places left to look
at. -/
def findCrlfAt (data : Bytes) (start : Nat) : Nat → Nat → Except Stop (Option Nat)
  | 0, _ => .ok none
  | places + 1, index => do
      let first ← byteAt data (start + index)
      let second ← byteAt data (start + index + 1)
      if first = 13 ∧ second = 10 then .ok (some index)
      else findCrlfAt data start places (index + 1)

/-- The lambda `header`. The range that `from_chars` gets must not end before it begins. -/
def headerAt (data : Bytes) (p : Nat) (lead : UInt8) (max : Nat) : Except Stop Header :=
  if data.length ≤ p then .ok .needMore
  else do
    let first ← byteAt data p
    if first ≠ lead then .ok .malformed
    else do
      let size := min kMaxHeader (← bytesLeft data p)
      match ← findCrlfAt data p (size - 1) 0 with
      | none => .ok (if size < kMaxHeader then .needMore else .malformed)
      | some crlf =>
          if crlf = 0 then .error .outside
          else do
            let digits ← copy data (p + 1) (crlf - 1)
            match fromChars digits with
            | none => .ok .malformed
            | some value => .ok (if max < value then .malformed else .complete value (crlf + 2))

def parseBulksAt (data : Bytes) : Nat → Nat → Except Stop Parsed
  | 0, p => .ok (.complete p [])
  | count + 1, p => do
      match ← headerAt data p 36 kMaxBulk with
      | .needMore => .ok .needMore
      | .malformed => .ok .malformed
      | .complete len used => do
          let p := p + used
          let size ← bytesLeft data p
          if size < len + 2 then .ok .needMore
          else do
            let cr ← byteAt data (p + len)
            if cr ≠ 13 then .ok .malformed
            else do
              let lf ← byteAt data (p + len + 1)
              if lf ≠ 10 then .ok .malformed
              else do
                let text ← copy data p len
                match ← parseBulksAt data count (p + len + 2) with
                | .complete stop args => .ok (.complete stop (text :: args))
                | other => .ok other

def parseAt (data : Bytes) (pos : Nat) : Except Stop Parsed := do
  match ← headerAt data pos 42 kMaxArgs with
  | .needMore => .ok .needMore
  | .malformed => .ok .malformed
  | .complete count used => parseBulksAt data count (pos + used)

/-! ### Agreement -/

theorem findCrlf_cons (first second : UInt8) (rest : Bytes) :
    findCrlf (first :: second :: rest) =
      if first = 13 ∧ second = 10 then some 0 else (findCrlf (second :: rest)).map (· + 1) := by
  by_cases ends : first = 13 ∧ second = 10
  · rcases ends with ⟨rfl, rfl⟩
    rfl
  · rw [if_neg ends, findCrlf]
    rintro tail rfl same
    rw [List.cons.injEq] at same
    exact ends ⟨rfl, same.1⟩

theorem findCrlf_singleton (byte : UInt8) : findCrlf [byte] = none := by
  rw [findCrlf]
  · rfl
  · rintro tail - same
    cases same

theorem findCrlfAt_eq {data : Bytes} {start : Nat} (places index : Nat)
    (inside : start + index + places < data.length) :
    findCrlfAt data start places index =
      .ok ((findCrlf ((data.drop (start + index)).take (places + 1))).map (index + ·)) := by
  induction places generalizing index with
  | zero =>
      have window := List.drop_eq_getElem_cons (show start + index < data.length by omega)
      rw [window, List.take_succ_cons, List.take_zero, findCrlf_singleton]
      rfl
  | succ places induction =>
      have window := List.drop_eq_getElem_cons (show start + index < data.length by omega)
      have next := List.drop_eq_getElem_cons (show start + index + 1 < data.length by omega)
      generalize data[start + index] = first at window
      generalize data[start + index + 1] = second at next
      have later : data.drop (start + (index + 1)) = second :: data.drop (start + index + 2) := next
      unfold findCrlfAt
      rw [byteAt_drop window, byteAt_drop next]
      change (if first = 13 ∧ second = 10 then Except.ok (some index) else _) = _
      rw [induction (index + 1) (by omega), later, window, next, List.take_succ_cons,
        List.take_succ_cons, List.take_succ_cons, findCrlf_cons]
      by_cases here : first = 13 ∧ second = 10
      · simp only [if_pos here]
        rfl
      · simp only [if_neg here]
        rw [Option.map_map]
        congr 2
        funext more
        simp only [Function.comp_apply]
        omega

theorem copy_eq {data : Bytes} {off count : Nat} (fits : off + count ≤ data.length) :
    copy data off count = .ok ((data.drop off).take count) :=
  if_pos fits

theorem headerAt_eq {lead : UInt8} (notCr : lead ≠ 13) (max : Nat) (data : Bytes) (p : Nat) :
    headerAt data p lead max = .ok (header lead max (data.drop p)) := by
  unfold headerAt header
  cases here : data.drop p with
  | nil => rw [if_pos (le_of_drop_nil here)]
  | cons first rest =>
      have inside := lt_of_drop here
      rw [if_neg (by omega), byteAt_drop here]
      change (if first ≠ lead then Except.ok Header.malformed else _) = _
      dsimp only
      by_cases apart : first ≠ lead
      · simp only [if_pos apart]
      · simp only [if_neg apart]
        have length : (first :: rest).length = data.length - p := by
          rw [← here, List.length_drop]
        have size : ((first :: rest).take kMaxHeader).length = min kMaxHeader (data.length - p) := by
          rw [List.length_take, length]
        have positive : 0 < min kMaxHeader (data.length - p) := by
          unfold kMaxHeader
          omega
        have sought : findCrlfAt data p (min kMaxHeader (data.length - p) - 1) 0 =
            .ok (findCrlf ((first :: rest).take kMaxHeader)) := by
          rw [findCrlfAt_eq _ _ (by omega), Nat.sub_add_cancel positive, Nat.add_zero, here,
            List.take_eq_take_min (i := kMaxHeader), length]
          simp
        unfold bytesLeft
        rw [if_pos (Nat.le_of_lt inside)]
        dsimp only [bind, Except.bind]
        rw [sought]
        dsimp only
        cases found : findCrlf ((first :: rest).take kMaxHeader) with
        | none => rw [size]
        | some crlf =>
            have within := findCrlf_le found
            rcases findCrlf_eq_some found with ⟨cr, -⟩
            cases crlf with
            | zero =>
                rw [List.getElem?_take_of_lt (by decide)] at cr
                exact absurd ((not_not.mp apart).symm.trans (Option.some.inj cr)) notCr
            | succ index =>
                have digits : (((first :: rest).take kMaxHeader).take (index + 1)).drop 1 =
                    (data.drop (p + 1)).take index := by
                  rw [List.take_take, Nat.min_eq_left (by omega), List.take_succ_cons, List.drop_one,
                    List.tail_cons, drop_succ here]
                dsimp only
                rw [if_neg (Nat.succ_ne_zero index), Nat.add_sub_cancel, copy_eq (by omega), digits]
                dsimp only
                cases fromChars ((data.drop (p + 1)).take index) with
                | none => rfl
                | some value => rfl

theorem parseBulksAt_eq (data : Bytes) (count p : Nat) (inside : p ≤ data.length) :
    parseBulksAt data count p = .ok (parseBulks count (data.drop p) p) := by
  induction count generalizing p with
  | zero => rfl
  | succ count induction =>
      rw [parseBulksAt, parseBulks, headerAt_eq (by decide)]
      dsimp only [bind, Except.bind]
      cases head : header 36 kMaxBulk (data.drop p) with
      | needMore => rfl
      | malformed => rfl
      | complete len used =>
          have within := (header_used head).2
          rw [List.length_drop] at within
          have size : ((data.drop p).drop used).length = data.length - (p + used) := by
            rw [List.drop_drop, List.length_drop]
          unfold bytesLeft
          dsimp only
          rw [if_pos (by omega), size]
          dsimp only
          by_cases short : data.length - (p + used) < len + 2
          · simp only [if_pos short]
          · simp only [if_neg short]
            have cr := List.getElem?_eq_getElem (show p + used + len < data.length by omega)
            have lf := List.getElem?_eq_getElem (show p + used + len + 1 < data.length by omega)
            have crIn : ((data.drop p).drop used)[len]? = data[p + used + len]? := by
              rw [List.drop_drop, List.getElem?_drop]
            have lfIn : ((data.drop p).drop used)[len + 1]? = data[p + used + len + 1]? := by
              rw [List.drop_drop, List.getElem?_drop, Nat.add_assoc (p + used)]
            rw [byteAt, cr, byteAt, lf, crIn, cr, lfIn, lf, copy_eq (by omega),
              induction _ (by omega)]
            have behind : ((data.drop p).drop used).drop (len + 2) =
                data.drop (p + used + len + 2) := by
              rw [List.drop_drop, List.drop_drop, Nat.add_assoc, Nat.add_assoc]
            rw [behind, List.drop_drop]
            generalize data[p + used + len] = first
            generalize data[p + used + len + 1] = second
            dsimp only
            by_cases isCr : first = 13
            · by_cases isLf : second = 10
              · rw [if_neg (not_not.mpr isCr), if_neg (not_not.mpr isLf),
                  if_neg (by simp [isCr, isLf])]
                cases parseBulks count (data.drop (p + used + len + 2)) (p + used + len + 2) with
                | complete stop args => rfl
                | needMore => rfl
                | malformed => rfl
              · rw [if_neg (not_not.mpr isCr), if_pos isLf,
                  if_pos (.inr fun same => isLf (Option.some.inj same))]
            · rw [if_pos isCr, if_pos (.inl fun same => isCr (Option.some.inj same))]

theorem parseAt_eq (data : Bytes) (pos : Nat) : parseAt data pos = .ok (parse data pos) := by
  unfold parseAt parse
  rw [headerAt_eq (by decide)]
  dsimp only [bind, Except.bind]
  cases head : header 42 kMaxArgs (data.drop pos) with
  | needMore => rfl
  | malformed => rfl
  | complete count used =>
      have within := (header_used head)
      rw [List.length_drop] at within
      dsimp only
      rw [parseBulksAt_eq data count (pos + used) (by omega), List.drop_drop]

/-! ## Inline commands -/

def skipSpaces (line : Bytes) : Nat → Nat → Except Stop Nat
  | 0, _ => .error .unending
  | rounds + 1, i =>
      if i < line.length then do
        let ch ← byteAt line i
        if isSpace ch then skipSpaces line rounds (i + 1) else .ok i
      else .ok i

/-- The two hexadecimal digits behind `\x`, read one after the other. -/
def hexPairAt (line : Bytes) (i : Nat) : Except Stop (Option UInt8) :=
  if i + 2 < line.length then do
    let high ← byteAt line (i + 1)
    if isHex high then do
      let low ← byteAt line (i + 2)
      .ok (if isHex low then some (hexValue high * 16 + hexValue low) else none)
    else .ok none
  else .ok none

/-- The loop over the bytes of an argument; the result keeps the index behind it. -/
def scanArgAt (line : Bytes) : Nat → UInt8 → Bytes → Nat → Except Stop (Option (Bytes × Nat))
  | 0, _, _, _ => .error .unending
  | rounds + 1, quote, arg, i =>
      if i < line.length then do
        let ch ← byteAt line i
        if quote = 0 then
          if isSpace ch then .ok (some (arg, i))
          else if ch = 34 ∨ ch = 39 then scanArgAt line rounds ch arg (i + 1)
          else scanArgAt line rounds quote (arg ++ [ch]) (i + 1)
        else if ch = quote then
          if i + 1 < line.length then do
            let next ← byteAt line (i + 1)
            if isSpace next then scanArgAt line rounds 0 arg (i + 1) else .ok none
          else scanArgAt line rounds 0 arg (i + 1)
        else if ch = 92 ∧ i + 1 < line.length then do
          let next ← byteAt line (i + 1)
          if quote = 39 then
            scanArgAt line rounds quote (arg ++ (if next = 39 then [next] else [92, next])) (i + 2)
          else do
            match ← (if next = 120 then hexPairAt line (i + 1) else .ok none) with
            | some byte => scanArgAt line rounds quote (arg ++ [byte]) (i + 4)
            | none => scanArgAt line rounds quote (arg ++ [escaped next]) (i + 2)
        else scanArgAt line rounds quote (arg ++ [ch]) (i + 1)
      else .ok (if quote = 0 then some (arg, i) else none)

def splitInlineAt (line : Bytes) : Nat → List Bytes → Nat → Except Stop (Option (List Bytes))
  | 0, _, _ => .error .unending
  | rounds + 1, args, i => do
      let i ← skipSpaces line (line.length + 1) i
      if i = line.length then .ok (some args)
      else
        match ← scanArgAt line (line.length + 1) 0 [] i with
        | none => .ok none
        | some (arg, i) => splitInlineAt line rounds (args ++ [arg]) i

/-- `window.find('\n')`. -/
def findNewlineAt (data : Bytes) (start : Nat) : Nat → Nat → Except Stop (Option Nat)
  | 0, _ => .ok none
  | places + 1, index => do
      let byte ← byteAt data (start + index)
      if byte = 10 then .ok (some index) else findNewlineAt data start places (index + 1)

/-- The `\r` in front of the newline is removed. -/
def trimAt (line : Bytes) : Except Stop Bytes :=
  if line = [] then .ok line
  else do
    let last ← byteAt line (line.length - 1)
    .ok (if last = 13 then line.dropLast else line)

def parseRequestAt (data : Bytes) (pos : Nat) : Except Stop Parsed :=
  if data.length ≤ pos then parseAt data pos
  else do
    let first ← byteAt data pos
    if first = 42 then parseAt data pos
    else do
      let size := min kMaxInline (← bytesLeft data pos)
      match ← findNewlineAt data pos size 0 with
      | none => .ok (if size < kMaxInline then .needMore else .malformed)
      | some nl => do
          let line ← copy data pos nl
          let trimmed ← trimAt line
          match ← splitInlineAt trimmed (trimmed.length + 1) [] 0 with
          | none => .ok .malformed
          | some args => .ok (.complete (pos + nl + 1) args)

/-! ### Agreement -/

theorem skipSpaces_eq {line : Bytes} (rounds i : Nat) (inside : i ≤ line.length)
    (enough : line.length - i < rounds) :
    ∃ j, skipSpaces line rounds i = .ok j ∧ i ≤ j ∧ j ≤ line.length ∧
      line.drop j = (line.drop i).dropWhile isSpace := by
  induction rounds generalizing i with
  | zero => exact absurd enough (Nat.not_lt_zero _)
  | succ rounds induction =>
      unfold skipSpaces
      cases here : line.drop i with
      | nil =>
          have ended := le_of_drop_nil here
          rw [if_neg (by omega)]
          exact ⟨i, rfl, le_rfl, inside, here⟩
      | cons ch rest =>
          have more := lt_of_drop here
          rw [if_pos more, byteAt_drop here]
          dsimp only [bind, Except.bind]
          rw [List.dropWhile_cons]
          by_cases same : isSpace ch = true
          · simp only [if_pos same]
            rcases induction (i + 1) more (by omega) with ⟨j, found, least, most, unread⟩
            rw [drop_succ here] at unread
            exact ⟨j, found, by omega, most, unread⟩
          · simp only [if_neg same]
            exact ⟨i, rfl, le_rfl, inside, here⟩

/-- The index stands where the scanner of lists has stopped. -/
def Scans (line : Bytes) (result : Except Stop (Option (Bytes × Nat))) :
    Option (Bytes × Bytes) → Prop
  | none => result = .ok none
  | some (arg, unread) => ∃ j, result = .ok (some (arg, j)) ∧ j ≤ line.length ∧
      line.drop j = unread

theorem hexPairAt_eq {line tail : Bytes} {i : Nat} {next : UInt8}
    (here : line.drop i = next :: tail) :
    hexPairAt line i = .ok (match tail with
      | high :: low :: _ =>
          if isHex high && isHex low then some (hexValue high * 16 + hexValue low) else none
      | _ => none) := by
  have behind := drop_succ here
  have length : line.length = i + 1 + tail.length := by
    have sizes := congrArg List.length here
    rw [List.length_drop, List.length_cons] at sizes
    have more := lt_of_drop here
    omega
  unfold hexPairAt
  rcases tail with _ | ⟨high, _ | ⟨low, after⟩⟩
  · rw [if_neg (by rw [length, List.length_nil]; omega)]
  · rw [if_neg (by rw [length, List.length_singleton]; omega)]
  · rw [if_pos (by rw [length, List.length_cons, List.length_cons]; omega), byteAt_drop behind,
      byteAt_drop (drop_succ behind)]
    dsimp only [bind, Except.bind]
    cases isHex high with
    | false => rfl
    | true => rfl

theorem scans_scanArgAt {line : Bytes} (rounds : Nat) (quote : UInt8) (arg : Bytes) (i : Nat)
    (inside : i ≤ line.length) (enough : line.length - i < rounds) :
    Scans line (scanArgAt line rounds quote arg i) (scanArg quote arg (line.drop i)) := by
  induction rounds generalizing quote arg i with
  | zero => exact absurd enough (Nat.not_lt_zero _)
  | succ rounds induction =>
      unfold scanArgAt
      cases here : line.drop i with
      | nil =>
          have ended := le_of_drop_nil here
          rw [if_neg (by omega), scanArg]
          by_cases outside : quote = 0
          · simp only [if_pos outside]
            exact ⟨i, rfl, inside, here⟩
          · simp only [if_neg outside]
            rfl
      | cons ch rest =>
          have more := lt_of_drop here
          have behind := drop_succ here
          -- one byte is taken
          have one : ∀ quote arg, Scans line (scanArgAt line rounds quote arg (i + 1))
              (scanArg quote arg rest) := by
            intro quote arg
            have scanned := induction quote arg (i + 1) more (by omega)
            rw [behind] at scanned
            exact scanned
          rw [if_pos more, byteAt_drop here]
          unfold scanArg
          dsimp only [bind, Except.bind]
          by_cases outside : quote = 0
          · rw [if_pos outside, if_pos outside]
            by_cases space : isSpace ch = true
            · simp only [if_pos space]
              exact ⟨i, rfl, inside, here⟩
            · simp only [if_neg space]
              by_cases quotes : ch = 34 ∨ ch = 39
              · simp only [if_pos quotes]
                exact one _ _
              · simp only [if_neg quotes]
                exact one _ _
          · rw [if_neg outside, if_neg outside]
            by_cases closes : ch = quote
            · rw [if_pos closes, if_pos closes]
              cases rest with
              | nil =>
                  have ended := le_of_drop_nil behind
                  have last : (([] : Bytes).head?.all isSpace) = true := rfl
                  rw [if_neg (by omega), if_pos last]
                  exact one _ _
              | cons next tail =>
                  rw [if_pos (lt_of_drop behind), byteAt_drop behind]
                  dsimp only
                  have same : ((next :: tail).head?.all isSpace) = isSpace next := rfl
                  by_cases space : isSpace next = true
                  · rw [if_pos space, if_pos (same.trans space)]
                    exact one _ _
                  · rw [if_neg space, if_neg fun all => space (same.symm.trans all)]
                    rfl
            · rw [if_neg closes, if_neg closes]
              by_cases backslash : ch = 92
              · rw [if_pos backslash]
                cases rest with
                | nil =>
                    have ended := le_of_drop_nil behind
                    have scanned := one quote (arg ++ [ch])
                    have unclosed : scanArg quote (arg ++ [ch]) [] = none := by
                      unfold scanArg
                      exact if_neg outside
                    rw [unclosed] at scanned
                    rw [if_neg fun both => by omega]
                    exact scanned
                | cons next tail =>
                    have again := lt_of_drop behind
                    have after := drop_succ behind
                    have two : ∀ arg, Scans line (scanArgAt line rounds quote arg (i + 2))
                        (scanArg quote arg tail) := by
                      intro arg
                      have scanned := induction quote arg (i + 2) again (by omega)
                      rw [show line.drop (i + 2) = tail from after] at scanned
                      exact scanned
                    rw [if_pos ⟨backslash, again⟩, byteAt_drop behind]
                    dsimp only
                    by_cases single : quote = 39
                    · rw [if_pos single, if_pos single]
                      exact two _
                    · rw [if_neg single, if_neg single]
                      by_cases named : next = 120
                      · rw [if_pos named, hexPairAt_eq behind]
                        have four : ∀ high low after arg, tail = high :: low :: after →
                            Scans line (scanArgAt line rounds quote arg (i + 4))
                              (scanArg quote arg after) := by
                          rintro high low others arg rfl
                          have third := drop_succ after
                          have scanned := induction quote arg (i + 4)
                            (lt_of_drop third) (by omega)
                          rw [show line.drop (i + 4) = others from drop_succ third] at scanned
                          exact scanned
                        rcases tail with _ | ⟨high, _ | ⟨low, others⟩⟩
                        · rw [if_neg fun both => Bool.false_ne_true both.2]
                          exact two _
                        · rw [if_neg fun both => Bool.false_ne_true both.2]
                          exact two _
                        · dsimp only
                          by_cases pair : (isHex high && isHex low) = true
                          · rw [if_pos pair, if_pos ⟨named, pair⟩]
                            exact four _ _ _ _ rfl
                          · rw [if_neg pair, if_neg fun both => pair both.2]
                            exact two _
                      · rw [if_neg named, if_neg fun both => named both.1]
                        exact two _
              · rw [if_neg backslash, if_neg fun both => backslash both.1]
                exact one _ _

theorem scanArg_unread {quote : UInt8} {arg line result unread : Bytes}
    (scanned : scanArg quote arg line = some (result, unread)) : unread.length ≤ line.length := by
  fun_induction scanArg quote arg line <;> grind

theorem scanArg_shorter {ch : UInt8} {rest result unread : Bytes} (text : isSpace ch = false)
    (scanned : scanArg 0 [] (ch :: rest) = some (result, unread)) :
    unread.length ≤ rest.length := by
  unfold scanArg at scanned
  rw [if_pos rfl, text, if_neg Bool.false_ne_true] at scanned
  by_cases same : ch = 34 ∨ ch = 39
  · rw [if_pos same] at scanned
    exact scanArg_unread scanned
  · rw [if_neg same] at scanned
    exact scanArg_unread scanned

theorem splitInlineAt_eq {line : Bytes} (rounds : Nat) (args : List Bytes) (i : Nat)
    (inside : i ≤ line.length) (enough : line.length - i < rounds) :
    splitInlineAt line rounds args i =
      .ok ((splitInlineLoop rounds (line.drop i)).map (args ++ ·)) := by
  induction rounds generalizing args i with
  | zero => exact absurd enough (Nat.not_lt_zero _)
  | succ rounds induction =>
      rcases skipSpaces_eq (line.length + 1) i inside (by omega) with
        ⟨j, skipped, least, most, trimmed⟩
      unfold splitInlineAt
      rw [skipped, splitInlineLoop, ← trimmed]
      dsimp only [bind, Except.bind]
      cases here : line.drop j with
      | nil =>
          have ended := le_of_drop_nil here
          rw [if_pos (le_antisymm most ended)]
          simp
      | cons ch rest =>
          have more := lt_of_drop here
          have text : isSpace ch = false := by
            rw [trimmed] at here
            have first := List.head?_dropWhile_not isSpace (line.drop i)
            rw [here] at first
            simpa using first
          rw [if_neg more.ne]
          have scanned := scans_scanArgAt (line.length + 1) 0 [] j most (by omega)
          rw [here] at scanned
          dsimp only
          cases found : scanArg 0 [] (ch :: rest) with
          | none =>
              rw [found] at scanned
              rw [show scanArgAt line (line.length + 1) 0 [] j = .ok none from scanned]
              rfl
          | some pair =>
              rcases pair with ⟨arg, unread⟩
              rw [found] at scanned
              rcases scanned with ⟨k, result, within, left⟩
              have shorter := scanArg_shorter text found
              have sizes := congrArg List.length here
              rw [List.length_drop, List.length_cons] at sizes
              rw [← left, List.length_drop] at shorter
              rw [result]
              dsimp only
              rw [induction (args ++ [arg]) k within (by omega), left, Option.map_map]
              congr 2
              funext others
              simp

theorem splitInlineAt_whole (line : Bytes) :
    splitInlineAt line (line.length + 1) [] 0 = .ok (splitInline line) := by
  rw [splitInlineAt_eq _ _ _ (Nat.zero_le _) (by omega), List.drop_zero]
  unfold splitInline
  simp

theorem trimAt_eq (line : Bytes) :
    trimAt line = .ok (if line.getLast? = some 13 then line.dropLast else line) := by
  unfold trimAt
  by_cases empty : line = []
  · rw [if_pos empty, empty]
    rfl
  · have positive := List.length_pos_iff.mpr empty
    have last := List.getElem?_eq_getElem (show line.length - 1 < line.length by omega)
    rw [if_neg empty, byteAt, List.getLast?_eq_getElem?, last]
    dsimp only [bind, Except.bind]
    simp only [Option.some.injEq]

theorem findNewlineAt_eq {data : Bytes} {start : Nat} (places index : Nat)
    (inside : start + index + places ≤ data.length) :
    findNewlineAt data start places index =
      .ok ((((data.drop (start + index)).take places).findIdx? (· = 10)).map (index + ·)) := by
  induction places generalizing index with
  | zero => rfl
  | succ places induction =>
      have window := List.drop_eq_getElem_cons (show start + index < data.length by omega)
      generalize data[start + index] = byte at window
      have later : data.drop (start + (index + 1)) = data.drop (start + index + 1) := rfl
      unfold findNewlineAt
      rw [byteAt_drop window]
      dsimp only [bind, Except.bind]
      rw [induction (index + 1) (by omega), later, window, List.take_succ_cons, List.findIdx?_cons]
      by_cases ends : byte = 10
      · rw [if_pos ends, if_pos (decide_eq_true ends)]
        rfl
      · rw [if_neg ends, if_neg (by simpa using ends), Option.map_map]
        congr 2
        funext more
        simp only [Function.comp_apply]
        omega

theorem parseRequestAt_eq (data : Bytes) (pos : Nat) :
    parseRequestAt data pos = .ok (parseRequest data pos) := by
  unfold parseRequestAt parseRequest
  cases here : data.drop pos with
  | nil =>
      rw [if_pos (le_of_drop_nil here)]
      exact parseAt_eq data pos
  | cons first rest =>
      have inside := lt_of_drop here
      rw [if_neg (by omega), byteAt_drop here]
      dsimp only [bind, Except.bind]
      by_cases array : first = 42
      · rw [if_pos array, if_pos array]
        exact parseAt_eq data pos
      · rw [if_neg array, if_neg array]
        have length : (first :: rest).length = data.length - pos := by
          rw [← here, List.length_drop]
        have size : ((first :: rest).take kMaxInline).length = min kMaxInline (data.length - pos) := by
          rw [List.length_take, length]
        have sought : findNewlineAt data pos (min kMaxInline (data.length - pos)) 0 =
            .ok (((first :: rest).take kMaxInline).findIdx? (· = 10)) := by
          rw [findNewlineAt_eq _ _ (by omega), Nat.add_zero, here,
            List.take_eq_take_min (i := kMaxInline), length]
          simp
        unfold bytesLeft
        rw [if_pos (Nat.le_of_lt inside)]
        dsimp only
        rw [sought]
        dsimp only
        cases found : ((first :: rest).take kMaxInline).findIdx? (· = 10) with
        | none => rw [size]
        | some nl =>
            have before : nl < ((first :: rest).take kMaxInline).length :=
              (List.findIdx?_eq_some_iff_findIdx_eq.mp found).1
            have line : ((first :: rest).take kMaxInline).take nl = (data.drop pos).take nl := by
              rw [List.take_take, Nat.min_eq_left (by omega), here]
            dsimp only
            rw [copy_eq (by omega), line]
            dsimp only
            rw [trimAt_eq]
            dsimp only
            rw [splitInlineAt_whole]
            dsimp only
            cases splitInline _ with
            | none => rfl
            | some args => rfl

end SomniumDB.Resp
