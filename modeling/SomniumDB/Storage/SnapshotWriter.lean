import SomniumDB.Library.Transfer
import SomniumDB.Storage.SnapshotManager

/-! # Writing a snapshot (`snapshot_manager.cpp`)

`hibernate_room` collects the records in a buffer that is flushed into a temporary file,
makes the file durable and gives it the name of the snapshot. Each call may fail. -/

namespace SomniumDB

open Bytes

namespace SnapshotManager

structure SnapshotFiles where
  snapshot : Option Bytes
  temporary : Option Bytes := none

/-- The outcomes of the calls of `hibernate_room`, those of `write` in order. -/
structure SaveCalls where
  opened : Bool := true
  writes : List Transfer := []
  synced : Bool := true
  closed : Bool := true
  renamed : Bool := true
  unlinked : Bool := true

/-- The temporary file, what is collected for it, and whether all writes succeeded. -/
structure Writer where
  file : Bytes := []
  buf : Bytes := []
  ok : Bool := true
  writes : List Transfer

namespace Writer

def bufferSize : Nat := 2 ^ 16

/-- `flush_buf`. -/
def flush (writer : Writer) : Writer :=
  if !writer.ok || writer.buf.isEmpty then writer
  else
    let written := Transfer.complete writer.writes writer.buf
    { file := writer.file ++ written.bytes
      buf := []
      ok := written.done
      writes := written.later }

def feed (writer : Writer) (bytes : Bytes) : Writer :=
  let fed := { writer with buf := writer.buf ++ bytes }
  if bufferSize ≤ fed.buf.length then fed.flush else fed

def record (writer : Writer) (key : Bytes) (record : Record) : Writer :=
  ((((((writer.feed (littleEndian 8 key.length)).feed key).feed
    (littleEndian 8 record.value.length)).feed record.value).feed
      (littleEndian 8 (unsigned record.expireAt))).feed (littleEndian 8 record.timestampMs)).feed
        (littleEndian 4 record.nodeId)

/-- The loop over the records ends at the first that could not be written. -/
def records (writer : Writer) : List (Bytes × Record) → Writer
  | [] => writer
  | (key, record) :: rest =>
      let fed := writer.record key record
      if fed.ok then fed.records rest else fed

def save (writes : List Transfer) (keys : FiniteMap Bytes Record) : Writer :=
  let header := ((({ writes } : Writer).feed snapshotMagic).feed
    (littleEndian 4 snapshotVersion)).feed (littleEndian 8 keys.toPairs.length)
  (header.records keys.toPairs).flush

end Writer

/-- `hibernate_room`, with whether the snapshot has been written. -/
def hibernateRoom (files : SnapshotFiles) (keys : FiniteMap Bytes Record) (calls : SaveCalls) :
    SnapshotFiles × Bool :=
  if !calls.opened then (files, false)
  else
    let writer := Writer.save calls.writes keys
    let left : SnapshotFiles :=
      { files with temporary := if calls.unlinked then none else some writer.file }
    if !writer.ok || !calls.synced then (left, false)
    else if !calls.closed then (left, false)
    else if !calls.renamed then (left, false)
    else ({ snapshot := some writer.file, temporary := none }, true)

/-! ## What is written -/

namespace Writer

/-- As long as every write succeeds, the file and the buffer hold what was fed. -/
def Holds (writer : Writer) (fed : Bytes) : Prop :=
  writer.ok = true → writer.file ++ writer.buf = fed

theorem Holds.flush {writer : Writer} {fed : Bytes} (holds : writer.Holds fed) :
    writer.flush.Holds fed := by
  unfold Writer.flush
  by_cases failed : (!writer.ok || writer.buf.isEmpty) = true
  · rw [if_pos failed]
    exact holds
  · rw [if_neg failed]
    intro done
    have going : writer.ok = true := by
      cases ok : writer.ok with
      | true => rfl
      | false =>
          rw [ok] at failed
          exact absurd rfl failed
    have whole : (Transfer.complete writer.writes writer.buf).bytes = writer.buf :=
      Transfer.complete_done done
    dsimp only
    rw [whole, List.append_nil]
    exact holds going

theorem Holds.feed {writer : Writer} {fed : Bytes} (holds : writer.Holds fed) (bytes : Bytes) :
    (writer.feed bytes).Holds (fed ++ bytes) := by
  have collected : Holds { writer with buf := writer.buf ++ bytes } (fed ++ bytes) := by
    intro ok
    dsimp only
    rw [← List.append_assoc, holds ok]
  unfold Writer.feed
  dsimp only
  by_cases enough : bufferSize ≤ (writer.buf ++ bytes).length
  · rw [if_pos enough]
    exact collected.flush
  · rw [if_neg enough]
    exact collected

theorem Holds.record {writer : Writer} {fed : Bytes} (holds : writer.Holds fed) (key : Bytes)
    (record : Record) : (writer.record key record).Holds (fed ++ encodeRecord key record) := by
  have fields := ((((((holds.feed (littleEndian 8 key.length)).feed key).feed
    (littleEndian 8 record.value.length)).feed record.value).feed
      (littleEndian 8 (unsigned record.expireAt))).feed (littleEndian 8 record.timestampMs)).feed
        (littleEndian 4 record.nodeId)
  unfold encodeRecord
  simp only [List.append_assoc] at fields ⊢
  exact fields

theorem Holds.records {writer : Writer} {fed : Bytes} (holds : writer.Holds fed)
    (pairs : List (Bytes × Record)) : (writer.records pairs).Holds (fed ++ encodeRecords pairs) := by
  induction pairs generalizing writer fed with
  | nil =>
      rw [encodeRecords, List.flatMap_nil, List.append_nil]
      exact holds
  | cons pair rest induction =>
      have first := holds.record pair.1 pair.2
      unfold Writer.records
      dsimp only
      by_cases same : (writer.record pair.1 pair.2).ok = true
      · rw [if_pos same]
        have later := induction first
        rw [List.append_assoc] at later
        exact later
      · rw [if_neg same]
        exact fun ok => absurd ok same

theorem buf_flush {writer : Writer} (ok : writer.flush.ok = true) : writer.flush.buf = [] := by
  unfold flush at ok ⊢
  by_cases idle : (!writer.ok || writer.buf.isEmpty) = true
  · rw [if_pos idle]
    rw [if_pos idle] at ok
    rw [ok] at idle
    simpa using idle
  · rw [if_neg idle]

theorem file_save {writes : List Transfer} {keys : FiniteMap Bytes Record}
    (ok : (save writes keys).ok = true) : (save writes keys).file = encode keys := by
  have start : Holds { writes } [] := fun _ => rfl
  have whole := ((((start.feed snapshotMagic).feed (littleEndian 4 snapshotVersion)).feed
    (littleEndian 8 keys.toPairs.length)).records keys.toPairs).flush
  have empty := buf_flush ok
  have held := whole ok
  change (save writes keys).file ++ (save writes keys).buf = _ at held
  change (save writes keys).buf = [] at empty
  rw [empty, List.append_nil] at held
  rw [held, encode]
  simp only [List.nil_append, List.append_assoc]

end Writer

/-- Either the snapshot is the encoding of the records, or it is what it was. -/
theorem hibernateRoom_cases (files : SnapshotFiles) (keys : FiniteMap Bytes Record)
    (calls : SaveCalls) :
    hibernateRoom files keys calls = ({ snapshot := some (encode keys) }, true) ∨
      (hibernateRoom files keys calls).2 = false ∧
        (hibernateRoom files keys calls).1.snapshot = files.snapshot := by
  unfold hibernateRoom
  by_cases broken : (!calls.opened) = true
  · rw [if_pos broken]
    exact .inr ⟨rfl, rfl⟩
  · rw [if_neg broken]
    dsimp only
    by_cases not : (!(Writer.save calls.writes keys).ok || !calls.synced) = true
    · rw [if_pos not]
      exact .inr ⟨rfl, rfl⟩
    · rw [if_neg not]
      by_cases alive : (!calls.closed) = true
      · rw [if_pos alive]
        exact .inr ⟨rfl, rfl⟩
      · rw [if_neg alive]
        by_cases failed : (!calls.renamed) = true
        · rw [if_pos failed]
          exact .inr ⟨rfl, rfl⟩
        · rw [if_neg failed]
          have ok : (Writer.save calls.writes keys).ok = true := by
            cases outcome : (Writer.save calls.writes keys).ok with
            | true => rfl
            | false =>
                rw [outcome] at not
                exact absurd rfl not
          rw [Writer.file_save ok]
          exact .inl rfl

end SnapshotManager

end SomniumDB
