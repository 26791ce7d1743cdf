import SomniumDB.Properties.TornLog

/-! # The append-only file under failing calls

What the file should contain is kept in a ledger: the records that have been
written in full, in the log and in the temporary file of a rewrite. -/

namespace SomniumDB

open Bytes FsUtil AofRecord AofRecovery

/-- The records written in full. -/
structure Ledger where
  log : List AofRecord := []
  /-- Those of the temporary file. -/
  rewrite : List AofRecord := []
  /-- A write to the temporary file has failed. -/
  spoiled : Bool := false

/-- The records that begin at or after an offset, the first one standing at
`position`. -/
def recordsFrom (start : Nat) : Nat → List AofRecord → List AofRecord
  | _, [] => []
  | position, record :: rest =>
      if start ≤ position then record :: rest
      else recordsFrom start (position + record.encodeRecord.length) rest

namespace AofManager

variable {manager : AofManager} {ledger : Ledger}

/-- The record is written in full. -/
def Appends (manager : AofManager) (record : AofRecord) (outcome : AppendOutcome) : Prop :=
  manager.torn = false ∧ (manager.fd = true ∨ outcome.opened = true) ∧
    record.encodeRecord.length ≤ outcome.written

instance (manager : AofManager) (record : AofRecord) (outcome : AppendOutcome) :
    Decidable (manager.Appends record outcome) :=
  inferInstanceAs (Decidable (_ ∧ _ ∧ _))

/-- The temporary file takes the place of the log. -/
def Commits (manager : AofManager) (outcome : CommitOutcome) : Prop :=
  manager.rewriteFd = true ∧ outcome.synced = true ∧ outcome.closed = true ∧
    outcome.renamed = true

instance (manager : AofManager) (outcome : CommitOutcome) :
    Decidable (manager.Commits outcome) :=
  inferInstanceAs (Decidable (_ ∧ _ ∧ _ ∧ _))

/-- What a call adds to the records written in full. -/
def recorded (manager : AofManager) (ledger : Ledger) : AofCall → Ledger
  | .append record outcome =>
      if manager.Appends record outcome then { ledger with log := ledger.log ++ [record] }
      else ledger
  | .startRewrite _ _ =>
      if manager.rewriteFd then ledger else { ledger with rewrite := [], spoiled := false }
  | .appendRewrite record written =>
      if (manager.appendRewrite record written).2 then
        { ledger with rewrite := ledger.rewrite ++ [record] }
      else { ledger with spoiled := true }
  | .appendTail start opened copied =>
      if (manager.appendTail start opened copied).2 then
        { ledger with
          rewrite := ledger.rewrite ++ recordsFrom start aofHeader.length ledger.log }
      else { ledger with spoiled := true }
  | .commitRewrite outcome =>
      if manager.Commits outcome then { ledger with log := ledger.rewrite } else ledger
  | .openFile _ | .abortRewrite => ledger

def recordedBy (manager : AofManager) (ledger : Ledger) : List AofCall → Ledger
  | [] => ledger
  | call :: rest => (manager.step call).recordedBy (manager.recorded ledger call) rest

/-- What a call needs. -/
def Careful (manager : AofManager) (ledger : Ledger) : AofCall → Prop
  /- A header that could not be written leaves nothing behind. -/
  | .openFile outcome =>
      manager.fd = false → outcome.opened = true → outcome.sized = true →
        manager.content = [] → outcome.written < aofHeader.length →
          outcome.written = 0 ∨ outcome.truncated = true
  /- Bytes are only appended to a file that has its header. -/
  | .append _ outcome =>
      manager.torn = false → (manager.fd = true ∨ outcome.opened = true) →
        0 < outcome.written → manager.content ≠ []
  /- What is copied begins at a record and ends with the last complete one. -/
  | .appendTail start opened copied =>
      (manager.appendTail start opened copied).2 = true →
        manager.size = (aofBytes ledger.log).length ∧
          ∃ count ≤ ledger.log.length, start = (aofBytes (ledger.log.take count)).length
  /- Nothing is committed after a write to the temporary file has failed. -/
  | .commitRewrite outcome => manager.Commits outcome → ledger.spoiled = false
  | .startRewrite _ _ | .appendRewrite _ _ | .abortRewrite => True

def CarefulRun : AofManager → Ledger → List AofCall → Prop
  | _, _, [] => True
  | manager, ledger, call :: rest =>
      manager.Careful ledger call ∧ CarefulRun (manager.step call) (manager.recorded ledger call) rest

end AofManager

/-- The file as it should be: absent, empty, or the header and the complete
records, and after them part of one more record if the log is torn. -/
inductive Shaped (admitted : AofRecord → Prop) (torn : Bool) :
    Option Bytes → List AofRecord → Prop
  | absent : Shaped admitted torn none []
  | empty : Shaped admitted torn (some []) []
  | whole (log : List AofRecord) : Shaped admitted torn (some (aofBytes log)) log
  | part (log : List AofRecord) (record : AofRecord) (part missing : Bytes)
      (isTorn : torn = true) (known : admitted record)
      (cut : record.encodeRecord = part ++ missing) (lacking : missing ≠ []) :
      Shaped admitted torn (some (aofBytes log ++ part)) log

/-- What holds between calls. -/
structure AofManager.Kept (admitted : AofRecord → Prop) (manager : AofManager)
    (ledger : Ledger) : Prop where
  shaped : Shaped admitted manager.torn manager.file ledger.log
  tmp : manager.rewriteFd = true → ledger.spoiled = false →
    manager.tmp = some (aofBytes ledger.rewrite)
  log : ∀ record ∈ ledger.log, admitted record
  rewrite : ∀ record ∈ ledger.rewrite, admitted record

theorem aofBytes_ne_nil (log : List AofRecord) : aofBytes log ≠ [] := by
  simp [aofBytes, aofHeader, ascii]

theorem aofBytes_append (log more : List AofRecord) :
    aofBytes (log ++ more) = aofBytes log ++ more.flatMap encodeRecord := by
  simp [aofBytes]

/-- A file with some content has its header and its records. -/
theorem Shaped.content {admitted : AofRecord → Prop} {torn : Bool} {file : Option Bytes}
    {log : List AofRecord} (shaped : Shaped admitted torn file log) (filled : file.getD [] ≠ []) :
    ∃ part, file = some (aofBytes log ++ part) ∧ (torn = false → part = []) := by
  cases shaped with
  | absent => exact absurd rfl filled
  | empty => exact absurd rfl filled
  | whole => exact ⟨[], by rw [List.append_nil], fun _ => rfl⟩
  | part _ record part missing isTorn known cut lacking =>
      exact ⟨part, rfl, fun whole => absurd (isTorn.symm.trans whole) (by simp)⟩

/-- Opening a file, which creates it where there is none. -/
theorem Shaped.created {admitted : AofRecord → Prop} {torn : Bool} {file : Option Bytes}
    {log : List AofRecord} (shaped : Shaped admitted torn file log) :
    Shaped admitted torn (some (file.getD [])) log := by
  cases shaped with
  | absent => exact .empty
  | empty => exact .empty
  | whole => exact .whole log
  | part _ record part missing isTorn known cut lacking =>
      exact .part log record part missing isTorn known cut lacking

/-- A file without content has no records. -/
theorem Shaped.log_nil {admitted : AofRecord → Prop} {torn : Bool} {file : Option Bytes}
    {log : List AofRecord} (shaped : Shaped admitted torn file log) (empty : file.getD [] = []) :
    log = [] := by
  cases shaped with
  | absent => rfl
  | empty => rfl
  | whole => exact absurd empty (aofBytes_ne_nil log)
  | part _ record part missing isTorn known cut lacking =>
      exact absurd (List.append_eq_nil_iff.mp empty).1 (aofBytes_ne_nil log)

/-- The records behind a record boundary. -/
theorem recordsFrom_take (log : List AofRecord) (count base : Nat) :
    recordsFrom (base + ((log.take count).flatMap encodeRecord).length) base log =
      log.drop count := by
  induction log generalizing count base with
  | nil => simp [recordsFrom]
  | cons record rest induction =>
      cases count with
      | zero => simp [recordsFrom]
      | succ fewer =>
          have positive := List.length_pos_iff.mpr (encodeRecord_ne_nil record)
          rw [List.take_succ_cons, List.flatMap_cons, List.length_append, ← Nat.add_assoc,
            recordsFrom, if_neg (by omega), induction,
            List.drop_succ_cons]

namespace AofManager

variable {admitted : AofRecord → Prop} {manager : AofManager} {ledger : Ledger}

/-- The bytes that `append_tail` copies between two record boundaries. -/
theorem tail_eq (count : Nat) {part : Bytes}
    (content : manager.content = aofBytes ledger.log ++ part)
    (size : manager.size = (aofBytes ledger.log).length) :
    manager.tail (aofBytes (ledger.log.take count)).length =
      (ledger.log.drop count).flatMap encodeRecord := by
  have split : aofBytes ledger.log = aofBytes (ledger.log.take count) ++
      (ledger.log.drop count).flatMap encodeRecord := by
    rw [← aofBytes_append, List.take_append_drop]
  have length := congrArg List.length split
  rw [List.length_append] at length
  rw [tail, content, size, split, List.append_assoc, List.drop_left, ← split]
  rw [show (aofBytes ledger.log).length - (aofBytes (ledger.log.take count)).length =
    ((ledger.log.drop count).flatMap encodeRecord).length by omega, List.take_left]

theorem kept_openFile (kept : manager.Kept admitted ledger) {outcome : OpenOutcome}
    (careful : manager.Careful ledger (.openFile outcome)) :
    (manager.openFile outcome).1.Kept admitted ledger := by
  unfold openFile
  by_cases isOpen : manager.fd = true
  · rw [if_pos isOpen]
    exact kept
  · rw [if_neg isOpen]
    by_cases failed : (!outcome.opened) = true
    · rw [if_pos failed]
      exact kept
    · rw [if_neg failed]
      by_cases empty : outcome.sized = true ∧ manager.content = []
      · rw [if_pos empty]
        have nothing := kept.shaped.log_nil empty.2
        by_cases short : outcome.written < aofHeader.length
        · rw [if_pos short]
          refine ⟨?_, kept.tmp, kept.log, kept.rewrite⟩
          have cut : (if outcome.truncated then [] else aofHeader.take outcome.written) = [] := by
            rcases careful (by simpa using isOpen) (by simpa using failed) (by simpa using empty.1)
              empty.2 short with zero | truncated
            · simp [zero]
            · simp [truncated]
          rw [nothing]
          dsimp only
          rw [cut]
          exact .empty
        · rw [if_neg short]
          refine ⟨?_, kept.tmp, kept.log, kept.rewrite⟩
          have header : aofHeader = aofBytes [] := by simp [aofBytes]
          rw [nothing]
          dsimp only
          rw [header]
          exact .whole []
      · rw [if_neg empty]
        exact ⟨kept.shaped.created, kept.tmp, kept.log, kept.rewrite⟩

theorem kept_append (kept : manager.Kept admitted ledger) {record : AofRecord}
    {outcome : AppendOutcome} (known : admitted record)
    (careful : manager.Careful ledger (.append record outcome)) :
    (manager.append record outcome).1.Kept admitted
      (manager.recorded ledger (.append record outcome)) := by
  by_cases appends : manager.Appends record outcome
  · rcases appends with ⟨whole, free, full⟩
    have positive := List.length_pos_iff.mpr (encodeRecord_ne_nil record)
    rcases kept.shaped.content (careful whole free (positive.trans_le full)) with
      ⟨part, file, complete⟩
    have closed : ¬ ((!manager.fd) = true ∧ (!outcome.opened) = true) := by
      rw [not_and_or]
      simpa using free
    simp only [recorded, if_pos (show manager.Appends record outcome from ⟨whole, free, full⟩),
      append, whole, Bool.false_eq_true, if_false, if_neg closed, if_neg (Nat.not_lt.mpr full)]
    refine ⟨?_, kept.tmp, ?_, kept.rewrite⟩
    · have content : manager.content ++ record.encodeRecord =
          aofBytes (ledger.log ++ [record]) := by
        rw [AofManager.content, file, complete whole, aofBytes_append]
        simp
      dsimp only
      rw [content]
      exact .whole _
    · intro other member
      rcases List.mem_append.mp member with before | here
      · exact kept.log other before
      · rw [List.mem_singleton.mp here]
        exact known
  · simp only [recorded, if_neg appends]
    unfold append
    dsimp only
    by_cases torn : manager.torn = true
    · rw [if_pos torn]
      exact kept
    · rw [if_neg torn]
      have whole : manager.torn = false := by simpa using torn
      by_cases failed : (!manager.fd) = true ∧ (!outcome.opened) = true
      · rw [if_pos failed]
        exact kept
      · rw [if_neg failed]
        have free : manager.fd = true ∨ outcome.opened = true := by
          rw [not_and_or] at failed
          simpa using failed
        by_cases short : outcome.written < record.encodeRecord.length
        · rw [if_pos short]
          by_cases truncated : outcome.written = 0 ∨ outcome.sized = true ∧ outcome.truncated = true
          · rw [if_pos truncated]
            exact ⟨kept.shaped.created, kept.tmp, kept.log, kept.rewrite⟩
          · rw [if_neg truncated]
            have started : 0 < outcome.written := by
              rw [not_or] at truncated
              exact Nat.pos_of_ne_zero truncated.1
            rcases kept.shaped.content (careful whole free started) with ⟨part, file, complete⟩
            refine ⟨?_, kept.tmp, kept.log, kept.rewrite⟩
            have content : manager.content = aofBytes ledger.log := by
              rw [AofManager.content, file, complete whole]
              simp
            dsimp only
            rw [content]
            refine .part _ record _ (record.encodeRecord.drop outcome.written) rfl known
              (List.take_append_drop _ _).symm ?_
            simpa using short
        · rw [if_neg short]
          exact absurd ⟨whole, free, Nat.le_of_not_lt short⟩ appends

theorem kept_startRewrite (kept : manager.Kept admitted ledger) (opened : Bool) (written : Nat) :
    (manager.startRewrite opened written).1.Kept admitted
      (manager.recorded ledger (.startRewrite opened written)) := by
  have nothing : ∀ record ∈ ([] : List AofRecord), admitted record := by simp
  simp only [startRewrite, recorded]
  by_cases rewriteFd : manager.rewriteFd = true
  · simp only [if_pos rewriteFd]
    exact kept
  · simp only [if_neg rewriteFd]
    by_cases failed : (!opened) = true
    · simp only [if_pos failed]
      exact ⟨kept.shaped, fun busy => absurd busy rewriteFd, kept.log, nothing⟩
    · simp only [if_neg failed]
      by_cases short : written < aofHeader.length
      · simp only [if_pos short]
        exact ⟨kept.shaped, fun busy => absurd busy rewriteFd, kept.log, nothing⟩
      · simp only [if_neg short]
        exact ⟨kept.shaped, fun _ _ => by simp [aofBytes], kept.log, nothing⟩

theorem kept_appendRewrite (kept : manager.Kept admitted ledger) {record : AofRecord}
    (known : admitted record) (written : Nat) :
    (manager.appendRewrite record written).1.Kept admitted
      (manager.recorded ledger (.appendRewrite record written)) := by
  simp only [appendRewrite, recorded]
  by_cases idle : (!manager.rewriteFd) = true
  · simp only [if_pos idle]
    exact ⟨kept.shaped, fun _ spoiled => by simp at spoiled, kept.log, kept.rewrite⟩
  · simp only [if_neg idle]
    by_cases full : decide (record.encodeRecord.length ≤ written) = true
    · rw [if_pos full]
      have long : record.encodeRecord.length ≤ written := by simpa using full
      refine ⟨kept.shaped, ?_, kept.log, ?_⟩
      · intro _ clean
        rw [kept.tmp (by simpa using idle) clean, List.take_of_length_le long, aofBytes_append]
        simp
      · intro other member
        rcases List.mem_append.mp member with before | here
        · exact kept.rewrite other before
        · rw [List.mem_singleton.mp here]
          exact known
    · rw [if_neg full]
      exact ⟨kept.shaped, fun _ spoiled => by simp at spoiled, kept.log, kept.rewrite⟩

theorem kept_appendTail (kept : manager.Kept admitted ledger) {start copied : Nat} {opened : Bool}
    (careful : manager.Careful ledger (.appendTail start opened copied)) :
    (manager.appendTail start opened copied).1.Kept admitted
      (manager.recorded ledger (.appendTail start opened copied)) := by
  simp only [recorded]
  by_cases succeeds : (manager.appendTail start opened copied).2 = true
  · rcases careful succeeds with ⟨size, count, _, rfl⟩
    have header : aofBytes (ledger.log.take count) =
        aofHeader ++ (ledger.log.take count).flatMap encodeRecord := rfl
    have records : recordsFrom (aofBytes (ledger.log.take count)).length aofHeader.length
        ledger.log = ledger.log.drop count := by
      rw [header, List.length_append, recordsFrom_take]
    have copies : manager.tail (aofBytes (ledger.log.take count)).length =
        (ledger.log.drop count).flatMap encodeRecord := by
      by_cases empty : manager.content = []
      · have nothing := kept.shaped.log_nil empty
        simp [tail, empty, nothing]
      · rcases kept.shaped.content empty with ⟨part, file, _⟩
        exact tail_eq count (by rw [content, file]; rfl) size
    rw [if_pos succeeds, records]
    unfold appendTail at succeeds ⊢
    by_cases refused : (!manager.rewriteFd) = true ∨ (!opened) = true ∨ manager.file = none
    · rw [if_pos refused]
      rw [if_pos refused] at succeeds
      cases succeeds
    · rw [if_neg refused]
      rw [if_neg refused] at succeeds
      have enough := of_decide_eq_true succeeds
      refine ⟨kept.shaped, ?_, kept.log, ?_⟩
      · intro busy clean
        have whole : (manager.tail (aofBytes (ledger.log.take count)).length).length ≤ copied :=
          enough.1.trans_le enough.2
        dsimp only
        rw [kept.tmp busy clean, List.take_of_length_le whole, copies, aofBytes_append]
        rfl
      · intro record member
        rcases List.mem_append.mp member with before | copied
        · exact kept.rewrite record before
        · exact kept.log record (List.mem_of_mem_drop copied)
  · rw [if_neg succeeds]
    unfold appendTail
    by_cases absent : (!manager.rewriteFd) = true ∨ (!opened) = true ∨ manager.file = none
    · rw [if_pos absent]
      exact ⟨kept.shaped, fun _ spoiled => by simp at spoiled, kept.log, kept.rewrite⟩
    · rw [if_neg absent]
      exact ⟨kept.shaped, fun _ spoiled => by simp at spoiled, kept.log, kept.rewrite⟩

theorem kept_commitRewrite (kept : manager.Kept admitted ledger) {outcome : CommitOutcome}
    (careful : manager.Careful ledger (.commitRewrite outcome)) :
    (manager.commitRewrite outcome).1.Kept admitted
      (manager.recorded ledger (.commitRewrite outcome)) := by
  simp only [recorded]
  by_cases commits : manager.Commits outcome
  · have clean := careful commits
    rcases commits with ⟨busy, synced, closed, renamed⟩
    have committed : manager.Commits outcome := ⟨busy, synced, closed, renamed⟩
    rw [if_pos committed]
    simp only [commitRewrite, busy, synced, closed, renamed, Bool.not_true, Bool.false_eq_true,
      if_false, or_self, kept.tmp busy clean, Option.getD_some]
    exact ⟨.whole _, fun idle => by simp at idle, kept.rewrite, kept.rewrite⟩
  · rw [if_neg commits]
    unfold commitRewrite
    by_cases failed : (!manager.rewriteFd) = true
    · rw [if_pos failed]
      exact kept
    · rw [if_neg failed]
      by_cases alive : (!outcome.synced) = true ∨ (!outcome.closed) = true ∨
          (!outcome.renamed) = true
      · rw [if_pos alive]
        exact ⟨kept.shaped, fun idle => by simp [abortRewrite] at idle, kept.log, kept.rewrite⟩
      · rw [if_neg alive]
        simp only [not_or, Bool.not_eq_true', Bool.not_eq_false] at alive failed
        exact absurd ⟨by simpa using failed, alive⟩ commits

/-- The record that a call is given is admitted. -/
def Admits (admitted : AofRecord → Prop) : AofCall → Prop
  | .append record _ => admitted record
  | .appendRewrite record _ => admitted record
  | _ => True

theorem kept_step (kept : manager.Kept admitted ledger) {call : AofCall}
    (known : Admits admitted call) (careful : manager.Careful ledger call) :
    (manager.step call).Kept admitted (manager.recorded ledger call) := by
  cases call with
  | openFile outcome => exact kept_openFile kept careful
  | append record outcome => exact kept_append kept known careful
  | startRewrite opened written => exact kept_startRewrite kept opened written
  | appendRewrite record written => exact kept_appendRewrite kept known written
  | appendTail start opened copied => exact kept_appendTail kept careful
  | commitRewrite outcome => exact kept_commitRewrite kept careful
  | abortRewrite =>
      exact ⟨kept.shaped, fun idle => by simp [step, abortRewrite] at idle, kept.log, kept.rewrite⟩

theorem kept_run (kept : manager.Kept admitted ledger) {calls : List AofCall}
    (known : ∀ call ∈ calls, Admits admitted call) (careful : CarefulRun manager ledger calls) :
    (manager.run calls).Kept admitted (manager.recordedBy ledger calls) := by
  induction calls generalizing manager ledger with
  | nil => exact kept
  | cons call rest induction =>
      exact induction (kept_step kept (known call List.mem_cons_self) careful.1)
        (fun other member => known other (List.mem_cons_of_mem _ member)) careful.2

/-- The manager of a process that has just recovered the log. -/
structure Starts (manager : AofManager) (log : List AofRecord) : Prop where
  file : (manager.file = none ∨ manager.file = some []) ∧ log = [] ∨
    manager.file = some (aofBytes log)
  whole : manager.torn = false
  idle : manager.rewriteFd = false

theorem Starts.kept {log : List AofRecord} (starts : manager.Starts log)
    (known : ∀ record ∈ log, admitted record) : manager.Kept admitted { log } := by
  refine ⟨?_, fun busy => absurd (busy.symm.trans starts.idle) (by simp), known, by simp⟩
  rcases starts.file with ⟨file | file, empty⟩ | file
  · rw [file]
    simp only [empty]
    exact .absent
  · rw [file]
    simp only [empty]
    exact .empty
  · rw [file]
    exact .whole log

end AofManager

/-- A file as it should be is replayed exactly. -/
theorem Shaped.recovered {torn : Bool} {file : Option Bytes} {log : List AofRecord}
    (shaped : Shaped AofRecord.Fits torn file log) (fits : ∀ record ∈ log, record.Fits) :
    (recover file).replayed = log := by
  cases shaped with
  | absent => rfl
  | empty => rfl
  | whole =>
      have whole := recover_aofBytes fits encodes_aofHeader (List.nil_append _).symm
        (by decide)
      rw [List.append_nil] at whole
      rw [whole]
  | part _ record part missing isTorn known cut lacking =>
      rw [recover_aofBytes fits known.encodes cut lacking]

open AofManager

/-- For every sequence of calls with any outcomes, from any state that recovery
leaves: if every call is careful, then the file is absent, empty, or the header
and exactly the records written in full, with part of one more record at most if
the log is torn; a torn log is not appended to; and recovery replays exactly the
records written in full, if those that were given to the manager are within the
limits of the parser. -/
theorem log_file_well_formed (manager : AofManager) (log : List AofRecord)
    (starts : manager.Starts log) (calls : List AofCall)
    (careful : CarefulRun manager { log } calls) :
    Shaped (fun _ => True) (manager.run calls).torn (manager.run calls).file
        (manager.recordedBy { log } calls).log ∧
      ((manager.run calls).torn = true → ∀ record outcome,
        ((manager.run calls).append record outcome).1 = manager.run calls) ∧
      ((∀ record ∈ log, record.Fits) → (∀ call ∈ calls, Admits AofRecord.Fits call) →
        (recover (manager.run calls).file).replayed = (manager.recordedBy { log } calls).log) := by
  refine ⟨?_, ?_, ?_⟩
  · have always : ∀ call ∈ calls, Admits (fun _ => True) call := by
      intro call _
      cases call <;> trivial
    exact (kept_run (starts.kept fun _ _ => trivial) always careful).shaped
  · intro torn record outcome
    simp [append, torn]
  · intro fits known
    have kept := kept_run (starts.kept fits) known careful
    exact kept.shaped.recovered kept.log

/-- A record is appended to a new file, and the next one is cut by a full disk
and cannot be removed. -/
def tornCalls : List AofCall :=
  [.openFile {}, .append sampleRecord { written := sampleRecord.encodeRecord.length },
    .append sampleRecord { written := 5, truncated := false }]

theorem log_file_well_formed_sample :
    Shaped (fun _ => True) (AofManager.run {} tornCalls).torn (AofManager.run {} tornCalls).file
        (AofManager.recordedBy {} {} tornCalls).log ∧
      (recover (AofManager.run {} tornCalls).file).replayed =
        (AofManager.recordedBy {} {} tornCalls).log := by
  have formed := log_file_well_formed {} [] ⟨.inl ⟨.inl rfl, rfl⟩, rfl, rfl⟩ tornCalls
    ⟨fun _ _ _ _ _ => .inr rfl, fun _ _ _ => by decide, fun _ _ _ => by decide +kernel, trivial⟩
  refine ⟨formed.1, formed.2.2 (by simp) ?_⟩
  intro call member
  simp only [tornCalls, List.mem_cons, List.not_mem_nil, or_false] at member
  rcases member with rfl | rfl | rfl
  · trivial
  · exact fits_sampleRecord
  · exact fits_sampleRecord

/-- `open_file` finds no free descriptor, and the first append then creates the
file. -/
def headerlessCalls : List AofCall :=
  [.openFile { opened := false },
    .append sampleRecord { written := sampleRecord.encodeRecord.length }]

/-- The file has no header: its record is taken for one of an old format, its
version is lost and the metadata become arguments. -/
theorem headerless_log_misread :
    (∀ torn log, ¬ Shaped (fun _ => True) torn (AofManager.run {} headerlessCalls).file log) ∧
      (AofManager.recordedBy {} {} headerlessCalls).log = [sampleRecord] ∧
      (recover (AofManager.run {} headerlessCalls).file).replayed =
        [{ room := ascii "default"
           args := [ascii "SET", ascii "k", ascii "v", kMetaToken, ascii "0",
            decimal (1750000000000 * 2 ^ 16), ascii "1"]
           timestampMs := 0 }] := by
  have file : (AofManager.run {} headerlessCalls).file = some sampleRecord.encodeRecord := by
    decide +kernel
  refine ⟨?_, by decide +kernel, by decide +kernel⟩
  intro torn log shaped
  rw [file] at shaped
  have second : sampleRecord.encodeRecord[1]? = some 56 := by decide +kernel
  rcases shaped.content (encodeRecord_ne_nil sampleRecord) with ⟨part, whole, _⟩
  rw [Option.some.inj whole] at second
  simp [aofBytes, aofHeader, ascii] at second

end SomniumDB
