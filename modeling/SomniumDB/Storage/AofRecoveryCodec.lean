import SomniumDB.Core.RespStream
import SomniumDB.Storage.AofCodec
import SomniumDB.Storage.AofManager

/-! # What recovery reads

The reader stands between the part of the file that has been replayed and the
part that is left, whatever has been read and compacted so far. -/

namespace SomniumDB.AofRecovery

open Bytes FsUtil Resp AofRecord

/-- The reader has consumed `consumed` bytes, and `rest` is left. -/
structure Reader.At (reader : Reader) (unread : List Bytes) (consumed : Nat) (rest : Bytes) :
    Prop where
  within : reader.pos ≤ reader.buf.length
  offset : reader.compacted + reader.pos = consumed
  left : reader.buf.drop reader.pos ++ unread.flatten = rest
  filled : ∀ chunk ∈ unread, chunk ≠ []

variable {reader : Reader} {unread : List Bytes} {consumed : Nat} {rest bytes : Bytes}
  {tokens : List Bytes}

theorem Reader.At.extend {chunk : Bytes} (here : reader.At (chunk :: unread) consumed rest) :
    (reader.compact.extend chunk).At unread consumed rest where
  within := Nat.zero_le _
  offset := here.offset
  left := by
    rw [← here.left, List.flatten_cons, ← List.append_assoc]
    rfl
  filled other member := here.filled other (List.mem_cons_of_mem _ member)

/-- What the buffer says about the next record, once it says something, is what the whole file
says. -/
theorem Reader.At.parsed (here : reader.At unread consumed rest)
    (decided : parse reader.buf reader.pos ≠ .needMore) :
    parse (reader.buf.drop reader.pos) 0 = parse rest 0 := by
  rw [← here.left, parse_append _ (Nat.zero_le _)]
  intro waits
  rw [parse_shift, waits] at decided
  exact decided rfl

theorem Reader.At.waits (here : reader.At unread consumed rest)
    (waits : parse rest 0 = .needMore) : parse reader.buf reader.pos = .needMore := by
  by_contra decided
  have same := here.parsed decided
  rw [waits] at same
  rw [parse_shift, same] at decided
  exact decided rfl

theorem nextRecord_waits (waits : parse rest 0 = .needMore)
    (here : reader.At unread consumed rest) :
    nextRecord reader unread =
      (.needMore, { buf := rest, pos := 0, compacted := consumed }, []) := by
  induction unread generalizing reader with
  | nil =>
      have layout : reader.buf.drop reader.pos = rest := by
        simpa using here.left
      rw [nextRecord, here.waits waits]
      simp only [Reader.compact, layout, here.offset]
  | cons chunk unread induction =>
      rw [nextRecord, here.waits waits]
      exact induction here.extend

theorem nextRecord_decided (decided : parse rest 0 ≠ .needMore)
    (here : reader.At unread consumed rest) :
    ∃ after left, nextRecord reader unread = ((parse rest 0).shift after.pos, after, left) ∧
      after.At left consumed rest ∧ parse (after.buf.drop after.pos) 0 = parse rest 0 := by
  induction unread generalizing reader with
  | nil =>
      have layout : reader.buf.drop reader.pos = rest := by
        simpa using here.left
      refine ⟨reader, [], ?_, here, by rw [layout]⟩
      rw [nextRecord, parse_shift, layout]
      cases found : parse rest 0 with
      | needMore => exact absurd found decided
      | malformed => rfl
      | complete stop tokens => rfl
  | cons chunk unread induction =>
      rw [nextRecord]
      by_cases waits : parse reader.buf reader.pos = .needMore
      · rw [waits]
        exact induction here.extend
      · have same := here.parsed waits
        refine ⟨reader, chunk :: unread, ?_, here, same⟩
        rw [parse_shift, same]
        cases found : parse rest 0 with
        | needMore => exact absurd found decided
        | malformed => rfl
        | complete stop tokens => rfl

theorem nextRecord_record {stop : Nat} (accepted : parse rest 0 = .complete stop tokens)
    (here : reader.At unread consumed rest) :
    ∃ position after left, nextRecord reader unread = (.complete position tokens, after, left) ∧
      Reader.At { after with pos := position } left (consumed + stop) (rest.drop stop) := by
  have decided : parse rest 0 ≠ .needMore := by
    rw [accepted]
    exact Parsed.noConfusion
  rcases nextRecord_decided decided here with ⟨after, left, found, there, same⟩
  rw [accepted] at found same
  have inside := (parse_stop same).2
  have within := there.within
  rw [List.length_drop] at inside
  refine ⟨after.pos + stop, after, left, found, ?_, ?_, ?_, there.filled⟩
  · change after.pos + stop ≤ after.buf.length
    omega
  · change after.compacted + (after.pos + stop) = _
    rw [← there.offset]
    omega
  · change after.buf.drop (after.pos + stop) ++ _ = _
    rw [← there.left, ← List.drop_drop, List.drop_append_of_le_length]
    rw [List.length_drop]
    exact inside

theorem nextRecord_complete (encodes : Encodes bytes tokens)
    (here : reader.At unread consumed (bytes ++ rest)) :
    ∃ stop after left, nextRecord reader unread = (.complete stop tokens, after, left) ∧
      Reader.At { after with pos := stop } left (consumed + bytes.length) rest := by
  have accepted := encodes.whole [] rest
  rw [List.nil_append, List.length_nil, Nat.zero_add] at accepted
  have found := nextRecord_record accepted here
  rw [List.drop_left] at found
  exact found

/-- The end of the loop: what is left of a record is cut off. -/
theorem recoverLoop_cut {missing : Bytes} (encodes : Encodes bytes tokens)
    (cut : bytes = rest ++ missing) (lacking : missing ≠ [])
    (here : reader.At unread consumed rest) (rounds : Nat) (fmt : Option Fmt)
    (recovery : Recovery) :
    recoverLoop (rounds + 1) reader unread fmt recovery =
      if rest = [] then recovery else recovery.truncate consumed := by
  have waits := encodes.cut [] rest missing cut lacking
  rw [recoverLoop, nextRecord_waits waits here]
  cases rest with
  | nil => rfl
  | cons first more => rfl

theorem recoverLoop_built {missing : Bytes} {fmt : Fmt} {log : List AofRecord}
    {written : AofRecord → Bytes} {tokensOf : AofRecord → List Bytes}
    (records : ∀ record ∈ log, Encodes (written record) (tokensOf record) ∧
      buildRecord fmt (tokensOf record) = some record)
    (encodes : Encodes bytes tokens) (cut : bytes = rest ++ missing) (lacking : missing ≠ [])
    (here : reader.At unread consumed (log.flatMap written ++ rest)) {rounds : Nat}
    (enough : log.length < rounds) (recovery : Recovery) :
    recoverLoop rounds reader unread (some fmt) recovery =
      if rest = [] then { recovery with replayed := recovery.replayed ++ log }
      else { recovery with replayed := recovery.replayed ++ log }.truncate
        (consumed + (log.flatMap written).length) := by
  induction log generalizing reader unread consumed rounds recovery with
  | nil =>
      rcases Nat.exists_eq_succ_of_ne_zero enough.ne' with ⟨fewer, rfl⟩
      rw [List.flatMap_nil, List.nil_append] at here
      rw [recoverLoop_cut encodes cut lacking here]
      simp
  | cons record others induction =>
      rcases Nat.exists_eq_succ_of_ne_zero (Nat.ne_of_gt (Nat.zero_lt_of_lt enough)) with
        ⟨fewer, rfl⟩
      rw [List.flatMap_cons, List.append_assoc] at here
      rcases records record List.mem_cons_self with ⟨whole, built⟩
      rcases nextRecord_complete whole here with ⟨stop, after, left, found, there⟩
      rw [recoverLoop, found]
      dsimp only
      rw [built]
      dsimp only
      rw [induction (fun other member => records other (List.mem_cons_of_mem _ member)) there
        (by simpa using enough)]
      simp only [Recovery.replay, List.append_assoc, List.cons_append, List.nil_append,
        List.flatMap_cons, List.length_append, Nat.add_assoc]

theorem recoverLoop_records {missing : Bytes} {log : List AofRecord}
    (fits : ∀ record ∈ log, record.Fits) (encodes : Encodes bytes tokens)
    (cut : bytes = rest ++ missing) (lacking : missing ≠ [])
    (here : reader.At unread consumed (log.flatMap encodeRecord ++ rest)) {rounds : Nat}
    (enough : log.length < rounds) (recovery : Recovery) :
    recoverLoop rounds reader unread (some .v3) recovery =
      if rest = [] then { recovery with replayed := recovery.replayed ++ log }
      else { recovery with replayed := recovery.replayed ++ log }.truncate
        (consumed + (log.flatMap encodeRecord).length) :=
  recoverLoop_built
    (fun record member => ⟨(fits record member).encodes, (fits record member).built⟩)
    encodes cut lacking here enough recovery

/-! ## Whole files -/

theorem encodes_aofHeader : Encodes aofHeader [kMagicToken, ascii "3"] := by
  have header : aofHeader = encode [kMagicToken, ascii "3"] := by decide
  rw [header]
  apply encodes_encode
  · intro arg member
    simp only [List.mem_cons, List.not_mem_nil, or_false] at member
    rcases member with rfl | rfl <;> decide
  · decide

theorem detect_aofHeader : detect [kMagicToken, ascii "3"] = .header := by
  have version : parseU64 (ascii "3") = some 3 := by decide
  simp [detect, version, kAofVersion]

theorem at_start (file : Bytes) : ({} : Reader).At (pieces kChunk file) 0 file where
  within := le_rfl
  offset := rfl
  left := by
    have positive : 0 < kChunk := by decide
    simpa using flatten_pieces positive file
  filled := pieces_ne_nil (by decide) file

theorem recover_eq {file : Bytes} (nonempty : file ≠ []) :
    recover (some file) =
      recoverLoop (file.length + 1) {} (pieces kChunk file) none { file := some file } := by
  cases file with
  | nil => exact absurd rfl nonempty
  | cons first rest => rfl

theorem length_le_flatMap {written : AofRecord → Bytes}
    (nonempty : ∀ record, written record ≠ []) (log : List AofRecord) :
    log.length ≤ (log.flatMap written).length := by
  induction log with
  | nil => exact le_rfl
  | cons record rest induction =>
      have positive := List.length_pos_iff.mpr (nonempty record)
      rw [List.length_cons, List.flatMap_cons, List.length_append]
      omega

theorem recover_aofBytes {log : List AofRecord} {part missing : Bytes}
    (fits : ∀ record ∈ log, record.Fits) (encodes : Encodes bytes tokens)
    (cut : bytes = part ++ missing) (lacking : missing ≠ []) :
    recover (some (aofBytes log ++ part)) = { replayed := log, file := some (aofBytes log) } := by
  have nonempty : aofBytes log ++ part ≠ [] := by
    simp [aofBytes, aofHeader, ascii]
  have here := at_start (aofBytes log ++ part)
  have layout : aofBytes log ++ part = aofHeader ++ (log.flatMap encodeRecord ++ part) := by
    rw [aofBytes, List.append_assoc]
  have lengthHeader : aofHeader.length = 29 := by decide
  have records := length_le_flatMap encodeRecord_ne_nil log
  have size : (aofBytes log ++ part).length =
      29 + (log.flatMap encodeRecord).length + part.length := by
    rw [List.length_append, aofBytes, List.length_append, lengthHeader]
  rw [layout] at here
  rcases nextRecord_complete encodes_aofHeader here with ⟨stop, after, left, found, there⟩
  rw [recover_eq nonempty, recoverLoop, layout, found]
  dsimp only
  rw [detect_aofHeader]
  dsimp only
  rw [← layout, recoverLoop_records fits encodes cut lacking there (by omega)]
  by_cases nothing : part = []
  · rw [if_pos nothing, nothing, List.append_nil]
    rfl
  · rw [if_neg nothing]
    have prefixLength : 0 + aofHeader.length + (log.flatMap encodeRecord).length =
        (aofBytes log).length := by
      rw [aofBytes, List.length_append]
      omega
    rw [prefixLength]
    simp [Recovery.truncate]

theorem recover_cutHeader {part missing : Bytes} (cut : aofHeader = part ++ missing)
    (lacking : missing ≠ []) : recover (some part) = { file := some [] } := by
  by_cases nothing : part = []
  · rw [nothing]
    rfl
  · rw [recover_eq nothing, recoverLoop_cut encodes_aofHeader cut lacking (at_start part),
      if_neg nothing]
    rfl

end SomniumDB.AofRecovery
