import SomniumDB.Library.Cursor
import SomniumDB.Storage.SnapshotManager

/-! # Loading a snapshot from its buffer (`snapshot_manager.cpp`)

`wakeup_room` reads the file into a buffer and moves an offset over it. Read so, nothing
outside the buffer is touched and the loop comes to an end, whatever the bytes are: the
result is that of `decode`. -/

namespace SomniumDB

open Bytes Cursor

namespace SnapshotManager

def loadRecord (isV2 : Bool) (data : Bytes) (off : Nat) :
    Except Stop ((Bytes × Record) × Nat) := do
  let (klen, off) ← number data 8 off
  let (key, off) ← take data klen off
  let (vlen, off) ← number data 8 off
  let (value, off) ← take data vlen off
  let (expireAt, off) ← number data 8 off
  if isV2 then
    let (ts, off) ← number data 8 off
    let (node, off) ← number data 4 off
    .ok ((key, { value, expireAt := signed expireAt, timestampMs := Hlc.normalize ts
                 nodeId := node }), off)
  else
    .ok ((key, { value, expireAt := signed expireAt, timestampMs := Hlc.normalize 0
                 nodeId := 1 }), off)

/-- The loop, with the number of rounds that it is watched for. -/
def loadLoop (isV2 : Bool) (data : Bytes) (count : Nat) :
    Nat → FiniteMap Bytes Record → Nat → Except Stop (FiniteMap Bytes Record)
  | 0, _, _ => .error .unending
  | rounds + 1, loaded, off =>
      if loaded.entries.length < count then do
        let ((key, record), off) ← loadRecord isV2 data off
        loadLoop isV2 data count rounds (loaded.insert key record) off
      else .ok loaded

def loadRecords (isV2 : Bool) (data : Bytes) (count off : Nat) :
    Except Stop (FiniteMap Bytes Record) :=
  if data.length < count then .error .corrupt
  else loadLoop isV2 data count (data.length + 1) ∅ off

def load (data : Bytes) : Except Stop (FiniteMap Bytes Record) :=
  if !need data 0 8 then .error .corrupt
  else do
    let magic ← copy data 0 4
    if magic = snapshotMagic then
      let version ← copy data 4 4
      if value 4 version ≠ snapshotVersion then .error .corrupt
      else
        let (count, off) ← number data 8 8
        loadRecords true data count off
    else
      let count ← copy data 0 8
      loadRecords false data (value 8 count) 8

/-! ## Agreement with `decode` -/

variable {data : Bytes}

theorem follows_loadRecord (small : data.length < wordSize) (isV2 : Bool) {off : Nat}
    (inside : off ≤ data.length) :
    Follows data (loadRecord isV2 data off) (decodeRecord isV2 (data.drop off)) := by
  unfold loadRecord decodeRecord
  refine (follows_number small inside 8).bind ?_
  intro klen off inside
  refine (follows_take small inside klen).bind ?_
  intro key off inside
  refine (follows_number small inside 8).bind ?_
  intro vlen off inside
  refine (follows_take small inside vlen).bind ?_
  intro value off inside
  refine (follows_number small inside 8).bind ?_
  intro expireAt off inside
  cases isV2 with
  | false => exact Follows.pure _ inside
  | true =>
      refine (follows_number small inside 8).bind ?_
      intro ts off inside
      refine (follows_number small inside 4).bind ?_
      intro node off inside
      exact Follows.pure _ inside

theorem readLittleEndian_shorter {width : Nat} {data rest : Bytes} {number : Nat}
    (read : readLittleEndian width data = some (number, rest)) :
    data.length = width + rest.length := by
  induction width generalizing data number with
  | zero =>
      cases read
      omega
  | succ width induction =>
      cases data with
      | nil => cases read
      | cons byte tail =>
          rw [readLittleEndian, Option.map_eq_some_iff] at read
          rcases read with ⟨⟨low, left⟩, inner, equal⟩
          cases equal
          rw [List.length_cons, induction inner]
          omega

theorem readBytes_shorter {count : Nat} {data bytes rest : Bytes}
    (read : readBytes count data = some (bytes, rest)) : data.length = count + rest.length := by
  unfold readBytes at read
  by_cases enough : count ≤ data.length
  · rw [if_pos enough] at read
    cases read
    rw [List.length_drop]
    omega
  · rw [if_neg enough] at read
    cases read

theorem decodeRecord_shorter {isV2 : Bool} {data rest : Bytes} {entry : Bytes × Record}
    (read : decodeRecord isV2 data = some (entry, rest)) : rest.length < data.length := by
  unfold decodeRecord at read
  simp only [Option.bind_eq_bind, Option.bind_eq_some_iff, Prod.exists] at read
  obtain ⟨klen, afterKlen, readKlen, key, afterKey, readKey, vlen, afterVlen, readVlen, value,
    afterValue, readValue, expireAt, afterDeadline, readDeadline, last⟩ := read
  have first := readLittleEndian_shorter readKlen
  have second := readBytes_shorter readKey
  have third := readLittleEndian_shorter readVlen
  have fourth := readBytes_shorter readValue
  have fifth := readLittleEndian_shorter readDeadline
  cases isV2 with
  | false =>
      cases last
      omega
  | true =>
      rw [if_pos rfl] at last
      simp only [Option.bind_eq_some_iff, Prod.exists] at last
      rcases last with ⟨ts, afterTs, readTs, node, afterNode, readNode, equal⟩
      have sixth := readLittleEndian_shorter readTs
      have seventh := readLittleEndian_shorter readNode
      cases equal
      omega

/-- A result of `decode` as the outcome of the reader. -/
def asOutcome : Option (FiniteMap Bytes Record) → Except Stop (FiniteMap Bytes Record)
  | none => .error .corrupt
  | some loaded => .ok loaded

theorem loadLoop_eq (small : data.length < wordSize) (isV2 : Bool) (count rounds : Nat)
    (loaded : FiniteMap Bytes Record) {off : Nat} (inside : off ≤ data.length)
    (enough : (data.drop off).length < rounds) :
    loadLoop isV2 data count rounds loaded off =
      asOutcome (decodeLoop isV2 count rounds loaded (data.drop off)) := by
  induction rounds generalizing loaded off with
  | zero => exact absurd enough (Nat.not_lt_zero _)
  | succ rounds induction =>
      unfold loadLoop decodeLoop
      by_cases more : loaded.entries.length < count
      · rw [if_pos more, if_pos more]
        have follows := follows_loadRecord small isV2 inside
        cases read : decodeRecord isV2 (data.drop off) with
        | none =>
            rw [read] at follows
            change loadRecord isV2 data off = _ at follows
            rw [follows]
            rfl
        | some result =>
            rcases result with ⟨⟨key, record⟩, rest⟩
            have shorter := decodeRecord_shorter read
            rw [read] at follows
            rcases follows with ⟨after, result, bound, left⟩
            subst left
            rw [result]
            exact induction (loaded.insert key record) bound (by omega)
      · rw [if_neg more, if_neg more]
        rfl

theorem loadRecords_eq (small : data.length < wordSize) (isV2 : Bool) (count : Nat) {off : Nat}
    (inside : off ≤ data.length) :
    loadRecords isV2 data count off = asOutcome (if data.length < count then none
      else decodeLoop isV2 count (data.length + 1) ∅ (data.drop off)) := by
  unfold loadRecords
  by_cases short : data.length < count
  · simp only [if_pos short]
    rfl
  · simp only [if_neg short]
    refine loadLoop_eq small isV2 count _ ∅ inside ?_
    rw [List.length_drop]
    omega

theorem copy_of_le {off count : Nat} (fits : off + count ≤ data.length) :
    copy data off count = .ok ((data.drop off).take count) :=
  if_pos fits

theorem readLittleEndian_of_le (width : Nat) {data : Bytes} (long : width ≤ data.length) :
    readLittleEndian width data = some (value width (data.take width), data.drop width) := by
  rw [readLittleEndian_split, readBytes, if_pos long]
  rfl

theorem load_eq (small : data.length < wordSize) : load data = asOutcome (decode data) := by
  unfold load decode
  have left := need_iff small (Nat.zero_le _) 8
  rw [List.drop_zero] at left
  by_cases short : data.length < 8
  · have lacking : need data 0 8 = false := by
      rw [Bool.eq_false_iff]
      exact fun checked => absurd (left.mp checked) (by omega)
    rw [if_pos short, lacking]
    rfl
  · have enough : need data 0 8 = true := left.mpr (by omega)
    rw [if_neg short, enough, copy_of_le (by omega), copy_of_le (by omega), copy_of_le (by omega),
      List.drop_zero]
    by_cases magic : data.take 4 = snapshotMagic
    · have rest : 4 ≤ (data.drop 4).length := by
        rw [List.length_drop]
        omega
      have version := readLittleEndian_of_le 4 rest
      rw [if_pos magic, version, List.drop_drop]
      change (if data.take 4 = snapshotMagic then _ else _) = _
      rw [if_pos magic]
      change (if value 4 ((data.drop 4).take 4) ≠ snapshotVersion then _ else _) = _
      dsimp only
      by_cases current : value 4 ((data.drop 4).take 4) ≠ snapshotVersion
      · rw [if_pos current, if_pos current]
        rfl
      · rw [if_neg current, if_neg current]
        have inside : 8 ≤ data.length := by
          omega
        have follows := follows_number small inside 8
        cases read : readLittleEndian 8 (data.drop 8) with
        | none =>
            rw [read] at follows
            change number data 8 8 = _ at follows
            rw [follows]
            rfl
        | some result =>
            rcases result with ⟨count, rest⟩
            rw [read] at follows
            rcases follows with ⟨off, result, bound, rest⟩
            subst rest
            rw [result]
            exact loadRecords_eq small true count bound
    · have inside : 8 ≤ data.length := by
        omega
      have head := readLittleEndian_of_le 8 inside
      rw [if_neg magic, head]
      change (if data.take 4 = snapshotMagic then _ else _) = _
      rw [if_neg magic]
      exact loadRecords_eq small false _ (by omega)

end SnapshotManager

end SomniumDB
