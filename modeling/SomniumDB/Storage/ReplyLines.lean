import SomniumDB.Core.RespStream
import SomniumDB.Storage.ReplicationWorker

/-! # The replies of a pipeline

`deliver` counts reply lines while they arrive. What it reports does not depend
on the pieces in which they arrive. -/

namespace SomniumDB.Replicator

open Bytes Resp

def replyLines : Nat → Bytes → Option (List Bytes)
  | 0, _ => some []
  | count + 1, text =>
      match findCrlf text with
      | none => none
      | some length =>
          (replyLines count (text.drop (length + 2))).map (text.take length :: ·)

def receivedText (chunks : List Bytes) : Bytes :=
  (chunks.takeWhile (· ≠ [])).flatten

def Replies.report (replies : Replies) (lines : List Bytes) : Nat :=
  replies.acked + if replies.failed then 0 else ackedOf lines

/-- What the loop still has to make of the lines that follow. -/
def Replies.ahead (expected : Nat) (replies : Replies) (more : Bytes) : Option Nat :=
  (replyLines (expected - replies.seen) (replies.text.drop replies.pos ++ more)).map
    replies.report

theorem head_line {text : Bytes} {pos length : Nat}
    (found : findCrlf (text.drop pos) = some length) :
    (((text.drop pos).take length).head? = some 43) ↔ text[pos]? = some 43 := by
  have first : (text.drop pos).head? = text[pos]? := by
    rw [List.head?_drop]
  cases length with
  | zero =>
      have ends : text[pos]? = some 13 := by
        rw [← first]
        generalize text.drop pos = rest at found
        cases rest with
        | nil => simp [findCrlf] at found
        | cons byte rest =>
            by_cases line : byte = 13
            · rw [line]
              rfl
            · simp [findCrlf, line] at found
      simp [ends]
  | succ length =>
      rw [List.head?_take, if_neg (Nat.succ_ne_zero _), first]

theorem ahead_line {expected length : Nat} {replies : Replies}
    (wanted : replies.seen < expected)
    (found : findCrlf (replies.text.drop replies.pos) = some length) (more : Bytes) :
    (replies.line length).ahead expected more = replies.ahead expected more := by
  have bound := findCrlf_le found
  rw [List.length_drop] at bound
  have count : expected - replies.seen = (expected - (replies.seen + 1)) + 1 := by
    omega
  have behind : (replies.text.drop replies.pos ++ more).drop (length + 2) =
      replies.text.drop (replies.pos + length + 2) ++ more := by
    rw [List.drop_append_of_le_length (by rw [List.length_drop]; omega), List.drop_drop,
      Nat.add_assoc]
  have line : (replies.text.drop replies.pos ++ more).take length =
      (replies.text.drop replies.pos).take length :=
    List.take_append_of_le_length (by rw [List.length_drop]; omega)
  have report : ∀ lines : List Bytes, (replies.line length).report lines =
      replies.report ((replies.text.drop replies.pos).take length :: lines) := by
    intro lines
    have head := head_line found
    by_cases success : replies.text[replies.pos]? = some 43
    · cases failed : replies.failed with
      | true => simp [Replies.report, Replies.line, failed]
      | false =>
          simp [Replies.report, Replies.line, failed, success, ackedOf, head.mpr success]
          omega
    · have no : ¬ ((replies.text.drop replies.pos).take length).head? = some 43 :=
        fun yes => success (head.mp yes)
      simp [Replies.report, Replies.line, success, ackedOf, no]
  simp only [Replies.ahead]
  rw [count, replyLines, findCrlf_append more found]
  dsimp only
  rw [line, behind, Option.map_map]
  apply congrFun
  apply congrArg
  funext lines
  exact report lines

/-- What the loop finds in what has been received: the end of the replies, or
no line. -/
theorem countLines_spec (expected : Nat) (rounds : Nat) (replies : Replies)
    (inside : replies.pos ≤ replies.text.length) (enough : expected ≤ replies.seen + rounds) :
    (∀ more, (countLines expected rounds replies).ahead expected more =
        replies.ahead expected more) ∧
      (countLines expected rounds replies).pos ≤ (countLines expected rounds replies).text.length ∧
      (expected ≤ (countLines expected rounds replies).seen ∨
        findCrlf ((countLines expected rounds replies).text.drop
          (countLines expected rounds replies).pos) = none) := by
  induction rounds generalizing replies with
  | zero => exact ⟨fun _ => rfl, inside, .inl enough⟩
  | succ rounds induction =>
      simp only [countLines]
      by_cases wanted : replies.seen < expected
      · rw [if_pos wanted]
        cases none : findCrlf (List.drop replies.pos replies.text) with
        | none => exact ⟨fun _ => rfl, inside, .inr none⟩
        | some length =>
            have bound := findCrlf_le none
            rw [List.length_drop] at bound
            have next : (replies.line length).pos ≤ (replies.line length).text.length := by
              simp only [Replies.line]
              omega
            have steps : expected ≤ (replies.line length).seen + rounds := by
              simp only [Replies.line]
              omega
            rcases induction (replies.line length) next steps with ⟨same, within, ending⟩
            refine ⟨?_, within, ending⟩
            intro more
            rw [same more, ahead_line wanted none]
      · rw [if_neg wanted]
        exact ⟨fun _ => rfl, inside, .inl (Nat.le_of_not_lt wanted)⟩

theorem ahead_satisfied {expected : Nat} {replies : Replies} (more : Bytes)
    (satisfied : expected ≤ replies.seen) : replies.ahead expected more = some replies.acked := by
  simp [Replies.ahead, Nat.sub_eq_zero_of_le satisfied, replyLines, Replies.report, ackedOf]

theorem ahead_missing {expected : Nat} {replies : Replies} (wanted : replies.seen < expected)
    (missing : findCrlf (replies.text.drop replies.pos) = none) :
    replies.ahead expected [] = none := by
  have count : expected - replies.seen = (expected - (replies.seen + 1)) + 1 := by
    omega
  simp only [Replies.ahead]
  rw [count, replyLines, List.append_nil, missing]
  rfl

theorem ahead_chunk {expected : Nat} {replies : Replies}
    (inside : replies.pos ≤ replies.text.length) (chunk more : Bytes) :
    ({ replies with text := replies.text ++ chunk } : Replies).ahead expected more =
      replies.ahead expected (chunk ++ more) := by
  simp only [Replies.ahead, List.drop_append_of_le_length inside, List.append_assoc]
  rfl

theorem receive_ahead (expected : Nat) (chunks : List Bytes) (replies : Replies)
    (inside : replies.pos ≤ replies.text.length) :
    receive expected chunks replies = replies.ahead expected (receivedText chunks) := by
  induction chunks generalizing replies with
  | nil =>
      rcases countLines_spec expected expected replies inside (Nat.le_add_left _ _) with
        ⟨same, within, ending⟩
      rw [← same, receive]
      by_cases satisfied : expected ≤ (countLines expected expected replies).seen
      · rw [if_pos satisfied]
        rw [ahead_satisfied _ satisfied]
      · rw [if_neg satisfied]
        rw [not_le] at satisfied
        exact (ahead_missing satisfied (ending.resolve_left (Nat.not_le.mpr satisfied))).symm
  | cons chunk rest induction =>
      rcases countLines_spec expected expected replies inside (Nat.le_add_left _ _) with
        ⟨same, within, ending⟩
      rw [← same, receive]
      by_cases satisfied : expected ≤ (countLines expected expected replies).seen
      · rw [if_pos satisfied]
        rw [ahead_satisfied _ satisfied]
      · rw [if_neg satisfied]
        rw [not_le] at satisfied
        by_cases closed : chunk = []
        · rw [if_pos closed]
          have nothing : receivedText (chunk :: rest) = [] := by
            simp [receivedText, closed]
          rw [nothing, ahead_missing satisfied (ending.resolve_left (Nat.not_le.mpr satisfied))]
        · rw [if_neg closed]
          have received : receivedText (chunk :: rest) = chunk ++ receivedText rest := by
            simp [receivedText, closed]
          have grown : (countLines expected expected replies).pos ≤
              ((countLines expected expected replies).text ++ chunk).length := by
            rw [List.length_append]
            omega
          rw [induction _ grown, ahead_chunk within, received]

/-- The report is the number of replies before the first that is no success,
whatever the pieces in which they arrive. -/
theorem receive_eq (expected : Nat) (chunks : List Bytes) :
    receive expected chunks {} =
      (replyLines expected (receivedText chunks)).map ackedOf := by
  have start : Replies.report {} = ackedOf := by
    funext lines
    simp [Replies.report]
  rw [receive_ahead expected chunks {} (Nat.zero_le _)]
  simp only [Replies.ahead, start, Nat.sub_zero, List.drop_zero, List.nil_append]

theorem replyLines_flatten {lines : List Bytes} (single : ∀ line ∈ lines, (13 : UInt8) ∉ line)
    (more : Bytes) :
    replyLines lines.length (lines.flatMap (· ++ crlf) ++ more) = some lines := by
  induction lines with
  | nil => rfl
  | cons line rest induction =>
      have layout : (line :: rest).flatMap (· ++ crlf) ++ more =
          line ++ 13 :: 10 :: (rest.flatMap (· ++ crlf) ++ more) := by
        simp [crlf]
      have found : findCrlf (line ++ 13 :: 10 :: (rest.flatMap (· ++ crlf) ++ more)) =
          some line.length :=
        findCrlf_of_not_mem line _ (single line List.mem_cons_self)
      rw [List.length_cons, layout, replyLines, found]
      dsimp only
      have behind : (line ++ 13 :: 10 :: (rest.flatMap (· ++ crlf) ++ more)).drop
          (line.length + 2) = rest.flatMap (· ++ crlf) ++ more := by
        simp [List.drop_append]
      rw [behind, induction fun other member => single other (List.mem_cons_of_mem _ member),
        List.take_left]
      rfl

end SomniumDB.Replicator
