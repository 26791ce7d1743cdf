import SomniumDB.Core.RespCodec
import SomniumDB.Library.Stream

/-! # The parser on a connection

What the parser decides about the bytes of a request does not change when more bytes
arrive, so that the requests of a stream do not depend on how it is cut. -/

namespace SomniumDB.Resp

open Bytes FsUtil

/-! ## More bytes -/

theorem findCrlf_append {text : Bytes} {index : Nat} (more : Bytes)
    (found : findCrlf text = some index) : findCrlf (text ++ more) = some index := by
  induction text using findCrlf.induct generalizing index with
  | case1 rest => exact found
  | case2 byte rest other induction =>
      rw [findCrlf] at found
      · rcases Option.map_eq_some_iff.mp found with ⟨before, inRest, rfl⟩
        rw [List.cons_append, findCrlf, induction inRest]
        · rfl
        · rintro tail rfl
          intro starts
          cases rest with
          | nil => cases inRest
          | cons second rest' =>
              rw [List.cons_append, List.cons.injEq] at starts
              exact other rest' rfl (by rw [starts.1])
      · exact other
  | case3 => cases found

theorem findCrlf_le {text : Bytes} {index : Nat} (found : findCrlf text = some index) :
    index + 2 ≤ text.length := by
  rcases findCrlf_eq_some found with ⟨_, second⟩
  rcases List.getElem?_eq_some_iff.mp second with ⟨inside, _⟩
  omega

theorem take_append_window (rest more : Bytes) (size : Nat) :
    ∃ later, (rest ++ more).take size = rest.take size ++ later ∧
      (size ≤ rest.length → later = []) := by
  refine ⟨more.take (size - rest.length), List.take_append, ?_⟩
  intro full
  rw [Nat.sub_eq_zero_of_le full, List.take_zero]

theorem header_append {lead : UInt8} {max : Nat} {rest : Bytes} (more : Bytes)
    (decided : header lead max rest ≠ .needMore) :
    header lead max (rest ++ more) = header lead max rest := by
  cases rest with
  | nil => exact absurd rfl decided
  | cons first tail =>
      rcases take_append_window (first :: tail) more kMaxHeader with ⟨later, window, full⟩
      unfold header at decided ⊢
      rw [List.cons_append] at window ⊢
      dsimp only at decided ⊢
      by_cases apart : first ≠ lead
      · simp only [if_pos apart]
      · simp only [if_neg apart]
        rw [if_neg apart] at decided
        rw [window]
        cases found : findCrlf (List.take kMaxHeader (first :: tail)) with
        | some crlf =>
            have inside := findCrlf_le found
            rw [findCrlf_append later found]
            dsimp only
            rw [List.take_append_of_le_length (by omega)]
        | none =>
            rw [found] at decided
            dsimp only at decided ⊢
            by_cases short : (List.take kMaxHeader (first :: tail)).length < kMaxHeader
            · rw [if_pos short] at decided
              exact absurd rfl decided
            · simp only [if_neg short] at decided
              have nothing : later = [] := by
                apply full
                rw [List.length_take] at short
                omega
              rw [nothing, List.append_nil, found]

theorem header_used {lead : UInt8} {max value used : Nat} {rest : Bytes}
    (accepted : header lead max rest = .complete value used) :
    0 < used ∧ used ≤ rest.length := by
  unfold header at accepted
  split at accepted
  · cases accepted
  · split at accepted
    · cases accepted
    · dsimp only at accepted
      split at accepted
      · split at accepted <;> cases accepted
      · rename_i crlf found
        have inside := findCrlf_le found
        split at accepted
        · cases accepted
        · split at accepted
          · cases accepted
          · cases accepted
            exact ⟨Nat.succ_pos _, inside.trans (List.length_take_le' _ _)⟩

theorem parseBulks_append {count : Nat} {rest : Bytes} {pos : Nat} (more : Bytes)
    (decided : parseBulks count rest pos ≠ .needMore) :
    parseBulks count (rest ++ more) pos = parseBulks count rest pos := by
  induction count generalizing rest pos with
  | zero => rfl
  | succ count induction =>
      rw [parseBulks] at decided
      rw [parseBulks, parseBulks]
      cases head : header 36 kMaxBulk rest with
      | needMore =>
          rw [head] at decided
          exact absurd rfl decided
      | malformed =>
          rw [header_append more (by rw [head]; decide), head]
      | complete len used =>
          rw [head] at decided
          rw [header_append more (by rw [head]; exact Header.noConfusion), head]
          dsimp only at decided ⊢
          have inside := (header_used head).2
          rw [List.drop_append_of_le_length inside]
          generalize rest.drop used = body at decided ⊢
          by_cases short : body.length < len + 2
          · rw [if_pos short] at decided
            exact absurd rfl decided
          · rw [if_neg short] at decided
            have enough : ¬(body ++ more).length < len + 2 := by
              rw [List.length_append]
              omega
            rw [if_neg short, if_neg enough, List.getElem?_append_left (by omega),
              List.getElem?_append_left (by omega), List.drop_append_of_le_length (by omega),
              List.take_append_of_le_length (by omega)]
            by_cases unterminated : body[len]? ≠ some 13 ∨ body[len + 1]? ≠ some 10
            · simp only [if_pos unterminated]
            · simp only [if_neg unterminated]
              rw [if_neg unterminated] at decided
              rw [induction]
              intro undecided
              rw [undecided] at decided
              exact decided rfl

theorem parse_append {buf : Bytes} {pos : Nat} (more : Bytes) (inside : pos ≤ buf.length)
    (decided : parse buf pos ≠ .needMore) : parse (buf ++ more) pos = parse buf pos := by
  unfold parse at decided ⊢
  rw [List.drop_append_of_le_length inside]
  generalize buf.drop pos = rest at decided ⊢
  dsimp only at decided ⊢
  cases head : header 42 kMaxArgs rest with
  | needMore =>
      rw [head] at decided
      exact absurd rfl decided
  | malformed => rw [header_append more (by rw [head]; decide), head]
  | complete count used =>
      rw [head] at decided
      rw [header_append more (by rw [head]; exact Header.noConfusion), head]
      dsimp only at decided ⊢
      rw [List.drop_append_of_le_length (header_used head).2, parseBulks_append more decided]

theorem parseRequest_append {buf : Bytes} {pos : Nat} (more : Bytes) (inside : pos ≤ buf.length)
    (decided : parseRequest buf pos ≠ .needMore) :
    parseRequest (buf ++ more) pos = parseRequest buf pos := by
  unfold parseRequest at decided ⊢
  rw [List.drop_append_of_le_length inside]
  cases waiting : buf.drop pos with
  | nil =>
      rw [waiting] at decided
      have empty : parse buf pos = .needMore := by
        unfold parse
        rw [waiting]
        rfl
      exact absurd empty decided
  | cons first tail =>
      rw [waiting] at decided
      rw [List.cons_append]
      dsimp only at decided ⊢
      by_cases array : first = 42
      · rw [if_pos array] at decided
        rw [if_pos array, if_pos array, parse_append more inside decided]
      · rw [if_neg array] at decided
        rw [if_neg array, if_neg array]
        rcases take_append_window (first :: tail) more kMaxInline with ⟨later, window, full⟩
        rw [List.cons_append] at window
        rw [window]
        cases found : (List.take kMaxInline (first :: tail)).findIdx? (· = 10) with
        | some nl =>
            have before : nl < (List.take kMaxInline (first :: tail)).length :=
              (List.findIdx?_eq_some_iff_findIdx_eq.mp found).1
            rw [List.findIdx?_append, found, Option.some_or]
            dsimp only
            rw [List.take_append_of_le_length (Nat.le_of_lt before)]
        | none =>
            rw [found] at decided
            dsimp only at decided
            by_cases short : (List.take kMaxInline (first :: tail)).length < kMaxInline
            · rw [if_pos short] at decided
              exact absurd rfl decided
            · rw [if_neg short] at decided
              have nothing : later = [] := by
                apply full
                rw [List.length_take] at short
                omega
              rw [nothing, List.append_nil, found]

/-! ## Positions -/

/-- The outcome for a request that stands further on in the buffer. -/
def Parsed.shift (offset : Nat) : Parsed → Parsed
  | .complete stop args => .complete (offset + stop) args
  | .needMore => .needMore
  | .malformed => .malformed

theorem parseBulks_shift (count : Nat) (rest : Bytes) (offset pos : Nat) :
    parseBulks count rest (offset + pos) = (parseBulks count rest pos).shift offset := by
  induction count generalizing rest pos with
  | zero => rfl
  | succ count induction =>
      rw [parseBulks, parseBulks]
      cases header 36 kMaxBulk rest with
      | needMore => rfl
      | malformed => rfl
      | complete len used =>
          dsimp only
          by_cases short : (rest.drop used).length < len + 2
          · simp only [if_pos short]
            rfl
          · simp only [if_neg short]
            by_cases unterminated : (rest.drop used)[len]? ≠ some 13 ∨
                (rest.drop used)[len + 1]? ≠ some 10
            · simp only [if_pos unterminated]
              rfl
            · simp only [if_neg unterminated]
              rw [show offset + pos + used + len + 2 = offset + (pos + used + len + 2) by omega,
                induction]
              cases parseBulks count _ (pos + used + len + 2) with
              | complete stop args => rfl
              | needMore => rfl
              | malformed => rfl

theorem parse_shift (buf : Bytes) (pos : Nat) :
    parse buf pos = (parse (buf.drop pos) 0).shift pos := by
  unfold parse
  rw [List.drop_zero]
  dsimp only
  cases header 42 kMaxArgs (buf.drop pos) with
  | needMore => rfl
  | malformed => rfl
  | complete count used =>
      dsimp only
      rw [Nat.zero_add, parseBulks_shift]

/-- A request is read from a position as from the beginning of what stands there. -/
theorem parseRequest_shift (buf : Bytes) (pos : Nat) :
    parseRequest buf pos = (parseRequest (buf.drop pos) 0).shift pos := by
  unfold parseRequest
  rw [List.drop_zero, parse_shift]
  cases buf.drop pos with
  | nil => rfl
  | cons first tail =>
      dsimp only
      by_cases same : first = 42
      · simp only [if_pos same]
      · simp only [if_neg same]
        cases (List.take kMaxInline (first :: tail)).findIdx? (· = 10) with
        | none =>
            dsimp only
            by_cases short : (List.take kMaxInline (first :: tail)).length < kMaxInline
            · rw [if_pos short]
              rfl
            · rw [if_neg short]
              rfl
        | some nl =>
            dsimp only
            cases splitInline _ with
            | none => rfl
            | some args =>
                dsimp only [Parsed.shift]
                rw [Nat.zero_add, Nat.add_assoc]

theorem parseBulks_stop {count : Nat} {rest : Bytes} {pos stop : Nat} {args : List Bytes}
    (accepted : parseBulks count rest pos = .complete stop args) :
    pos ≤ stop ∧ stop ≤ pos + rest.length := by
  induction count generalizing rest pos stop args with
  | zero =>
      cases accepted
      exact ⟨le_rfl, Nat.le_add_right _ _⟩
  | succ count induction =>
      rw [parseBulks] at accepted
      cases head : header 36 kMaxBulk rest with
      | needMore =>
          rw [head] at accepted
          cases accepted
      | malformed =>
          rw [head] at accepted
          cases accepted
      | complete len used =>
          rw [head] at accepted
          have inside := (header_used head).2
          have body : (rest.drop used).length = rest.length - used := List.length_drop
          dsimp only at accepted
          by_cases short : (List.drop used rest).length < len + 2
          · rw [if_pos short] at accepted
            cases accepted
          · rw [if_neg short] at accepted
            by_cases unterminated : (List.drop used rest)[len]? ≠ some 13 ∨
                (List.drop used rest)[len + 1]? ≠ some 10
            · rw [if_pos unterminated] at accepted
              cases accepted
            · rw [if_neg unterminated] at accepted
              cases parsed : parseBulks count ((rest.drop used).drop (len + 2))
                  (pos + used + len + 2) with
              | needMore =>
                  rw [parsed] at accepted
                  cases accepted
              | malformed =>
                  rw [parsed] at accepted
                  cases accepted
              | complete stop' args' =>
                  rw [parsed] at accepted
                  cases accepted
                  rcases induction parsed with ⟨after, before⟩
                  rw [List.length_drop] at before
                  omega

/-- An array takes at least one byte of the buffer, and no more than there are. -/
theorem parse_stop {buf : Bytes} {stop : Nat} {args : List Bytes}
    (accepted : parse buf 0 = .complete stop args) : 0 < stop ∧ stop ≤ buf.length := by
  unfold parse at accepted
  rw [List.drop_zero] at accepted
  dsimp only at accepted
  cases head : header 42 kMaxArgs buf with
  | needMore =>
      rw [head] at accepted
      cases accepted
  | malformed =>
      rw [head] at accepted
      cases accepted
  | complete count used =>
      rw [head] at accepted
      have used' := header_used head
      rcases parseBulks_stop accepted with ⟨after, before⟩
      rw [List.length_drop] at before
      omega

/-- A request takes at least one byte of the buffer, and no more than there are. -/
theorem parseRequest_stop {buf : Bytes} {stop : Nat} {args : List Bytes}
    (accepted : parseRequest buf 0 = .complete stop args) : 0 < stop ∧ stop ≤ buf.length := by
  unfold parseRequest at accepted
  rw [List.drop_zero] at accepted
  cases buf with
  | nil => exact parse_stop accepted
  | cons first tail =>
      dsimp only at accepted
      by_cases same : first = 42
      · rw [if_pos same] at accepted
        exact parse_stop accepted
      · rw [if_neg same] at accepted
        cases found : (List.take kMaxInline (first :: tail)).findIdx? (· = 10) with
        | none =>
            rw [found] at accepted
            dsimp only at accepted
            split at accepted <;> cases accepted
        | some nl =>
            have before : nl < (List.take kMaxInline (first :: tail)).length :=
              (List.findIdx?_eq_some_iff_findIdx_eq.mp found).1
            have window := List.length_take_le' kMaxInline (first :: tail)
            rw [found] at accepted
            dsimp only at accepted
            split at accepted
            · cases accepted
            · cases accepted
              omega

/-! ## The requests of a stream -/

def Parsed.asRead : Parsed → Stream.Read (List Bytes)
  | .complete stop args => .item args stop
  | .needMore => .more
  | .malformed => .bad

theorem Parsed.eq_complete {parsed : Parsed} {args : List Bytes} {stop : Nat}
    (found : parsed.asRead = .item args stop) : parsed = .complete stop args := by
  cases parsed with
  | complete used values =>
      cases found
      rfl
  | needMore => cases found
  | malformed => cases found

theorem Parsed.eq_malformed {parsed : Parsed} (found : parsed.asRead = .bad) :
    parsed = .malformed := by
  cases parsed with
  | complete stop args => cases found
  | needMore => cases found
  | malformed => rfl

/-- The parser of requests as a reader of a stream. -/
def requestReader : Stream.Reader UInt8 (List Bytes) where
  read buf := (parseRequest buf 0).asRead
  used_pos found := (parseRequest_stop (Parsed.eq_complete found)).1
  used_le found := (parseRequest_stop (Parsed.eq_complete found)).2
  item_append later found := by
    have parsed := Parsed.eq_complete found
    rw [parseRequest_append later (Nat.zero_le _) (by rw [parsed]; exact Parsed.noConfusion)]
    exact found
  bad_append later found := by
    have parsed := Parsed.eq_malformed found
    rw [parseRequest_append later (Nat.zero_le _) (by rw [parsed]; exact Parsed.noConfusion)]
    exact found

end SomniumDB.Resp
