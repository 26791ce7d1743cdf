import SomniumDB.Storage.AofRecoveryCodec

/-! # Torn logs

A crash leaves the append-only file with a record of which something is missing.
Recovery replays what is complete and cuts the rest off, so that the file can be
appended to again. -/

namespace SomniumDB

open Bytes FsUtil AofRecord AofRecovery

namespace AofManager

/-- Records appended one after the other, each in full. -/
def appendAll (manager : AofManager) (records : List AofRecord) : AofManager :=
  records.foldl (fun manager record =>
    (manager.append record { written := record.encodeRecord.length }).1) manager

theorem appendAll_file {manager : AofManager} {bytes : Bytes} (whole : manager.torn = false)
    (content : manager.file = some bytes) (records : List AofRecord) :
    (manager.appendAll records).file = some (bytes ++ records.flatMap encodeRecord) := by
  induction records generalizing manager bytes with
  | nil => simpa [appendAll] using content
  | cons record rest induction =>
      have appended : (manager.append record { written := record.encodeRecord.length }).1 =
          { manager with
            file := some (bytes ++ record.encodeRecord)
            fd := true
            size := manager.size + record.encodeRecord.length } := by
        simp [append, whole, AofManager.content, content]
      change ((manager.append record { written := record.encodeRecord.length }).1.appendAll
        rest).file = _
      rw [appended, List.flatMap_cons, ← List.append_assoc]
      apply induction
      · exact whole
      · rfl

/-- The manager of a process that starts on the file: it is opened, and records
are appended. -/
def started (file : Option Bytes) (records : List AofRecord) : AofManager :=
  (({ file } : AofManager).openFile {}).1.appendAll records

theorem started_file (log records : List AofRecord) :
    (started (some (aofBytes log)) records).file = some (aofBytes (log ++ records)) := by
  have nonempty : aofBytes log ≠ [] := by
    simp [aofBytes, aofHeader, ascii]
  have opened : (({ file := some (aofBytes log) } : AofManager).openFile {}).1 =
      { file := some (aofBytes log), size := (aofBytes log).length, fd := true } := by
    simp [openFile, content, nonempty]
  rw [started, opened, appendAll_file rfl rfl]
  simp [aofBytes]

end AofManager

open AofManager

/-- A log of records within the limits of the parser that is cut anywhere within
one of its records: recovery replays exactly the records before it and leaves
the file with these; records appended then are replayed after them by the next
recovery. A file that is cut within its header is emptied. -/
theorem torn_log_recovered (records : List AofRecord) (fits : ∀ record ∈ records, record.Fits) :
    (∀ k, (within : k < records.length) → ∀ part missing,
      (records.get ⟨k, within⟩).encodeRecord = part ++ missing → missing ≠ [] →
        recover (some (aofBytes (records.take k) ++ part)) =
            { replayed := records.take k, file := some (aofBytes (records.take k)) } ∧
          ∀ more : List AofRecord, (∀ record ∈ more, record.Fits) →
            recover (started (some (aofBytes (records.take k))) more).file =
              { replayed := records.take k ++ more
                file := some (aofBytes (records.take k ++ more)) }) ∧
      ∀ part missing, aofHeader = part ++ missing → missing ≠ [] →
        recover (some part) = { file := some [] } := by
  refine ⟨?_, fun part missing cut lacking => recover_cutHeader cut lacking⟩
  intro k within part missing cut lacking
  have fitting := fits (records.get ⟨k, within⟩) (List.get_mem _ _)
  have before : ∀ record ∈ records.take k, record.Fits := fun record member =>
    fits record (List.mem_of_mem_take member)
  refine ⟨recover_aofBytes before fitting.encodes cut lacking, ?_⟩
  intro more others
  have all : ∀ record ∈ records.take k ++ more, record.Fits := by
    intro record member
    exact (List.mem_append.mp member).elim (before record) (others record)
  have nothing := recover_aofBytes all fitting.encodes (List.nil_append _).symm
    (encodeRecord_ne_nil _)
  rw [List.append_nil] at nothing
  rw [started_file, nothing]

/-- A write of the default room. -/
def sampleRecord : AofRecord :=
  { room := ascii "default", args := [ascii "SET", ascii "k", ascii "v"]
    timestampMs := 1750000000000 * 2 ^ 16 }

theorem fits_sampleRecord : sampleRecord.Fits := by
  refine ⟨by decide, ?_, by decide, by decide, by decide, by decide⟩
  intro arg member
  simp only [sampleRecord, List.mem_cons, List.not_mem_nil, or_false] at member
  rcases member with rfl | rfl | rfl <;> decide

theorem torn_sample_recovered :
    recover (some (aofBytes [sampleRecord] ++ ascii "*8\r\n$7\r\ndef")) =
      { replayed := [sampleRecord], file := some (aofBytes [sampleRecord]) } :=
  ((torn_log_recovered [sampleRecord, sampleRecord] (by
    intro record member
    simp only [List.mem_cons, List.not_mem_nil, or_false, or_self] at member
    rw [member]
    exact fits_sampleRecord)).1 1 (by decide) (ascii "*8\r\n$7\r\ndef")
      (sampleRecord.encodeRecord.drop 11) (by decide +kernel) (by decide +kernel)).1

end SomniumDB
