import SomniumDB.Library.FiniteMap
import SomniumDB.Library.LittleEndian
import SomniumDB.Core.Record

/-! # Snapshot files (`snapshot_manager.cpp`)

The bytes that `hibernate_room` writes, and how `wakeup_room` reads a file:
current files start with a magic and a version, old ones with the number of
records, and their records carry no version. -/

namespace SomniumDB

open Bytes

namespace SnapshotManager

def snapshotMagic : Bytes := ascii "RSNP"

def snapshotVersion : Nat := 2

/-! ## Writing -/

def encodeRecord (key : Bytes) (record : Record) : Bytes :=
  littleEndian 8 key.length ++ (key ++ (littleEndian 8 record.value.length ++ (record.value ++
    (littleEndian 8 (unsigned record.expireAt) ++ (littleEndian 8 record.timestampMs ++
      littleEndian 4 record.nodeId)))))

def encodeRecords (pairs : List (Bytes × Record)) : Bytes :=
  pairs.flatMap fun pair => encodeRecord pair.1 pair.2

/-- The content of the file that `hibernate_room` writes. -/
def encode (keys : FiniteMap Bytes Record) : Bytes :=
  snapshotMagic ++ (littleEndian 4 snapshotVersion ++
    (littleEndian 8 keys.toPairs.length ++ encodeRecords keys.toPairs))

/-! ## Reading -/

/-- One record and the rest of the file; none when the file ends too early. -/
def decodeRecord (isV2 : Bool) (data : Bytes) : Option ((Bytes × Record) × Bytes) := do
  let (klen, data) ← readLittleEndian 8 data
  let (key, data) ← readBytes klen data
  let (vlen, data) ← readLittleEndian 8 data
  let (value, data) ← readBytes vlen data
  let (expireAt, data) ← readLittleEndian 8 data
  if isV2 then
    let (ts, data) ← readLittleEndian 8 data
    let (node, data) ← readLittleEndian 4 data
    some ((key, { value, expireAt := signed expireAt, timestampMs := Hlc.normalize ts
                  nodeId := node }), data)
  else
    some ((key, { value, expireAt := signed expireAt, timestampMs := Hlc.normalize 0
                  nodeId := 1 }), data)

/-- The loop of `wakeup_room`, until `count` different keys are loaded; the last
occurrence of a key wins. Every record takes bytes from the file, so that the
length of the file bounds the number of rounds. -/
def decodeLoop (isV2 : Bool) (count : Nat) :
    Nat → FiniteMap Bytes Record → Bytes → Option (FiniteMap Bytes Record)
  | 0, _, _ => none
  | rounds + 1, loaded, data =>
      if loaded.entries.length < count then
        match decodeRecord isV2 data with
        | none => none
        | some ((key, record), rest) =>
            decodeLoop isV2 count rounds (loaded.insert key record) rest
      else some loaded

/-- The records of a file; none when it is corrupt. -/
def decode (data : Bytes) : Option (FiniteMap Bytes Record) :=
  if data.length < 8 then none
  else if data.take 4 = snapshotMagic then
    match readLittleEndian 4 (data.drop 4) with
    | none => none
    | some (version, rest) =>
        if version ≠ snapshotVersion then none
        else
          match readLittleEndian 8 rest with
          | none => none
          | some (count, rest) =>
              if data.length < count then none
              else decodeLoop true count (data.length + 1) ∅ rest
  else
    match readLittleEndian 8 data with
    | none => none
    | some (count, rest) =>
        if data.length < count then none
        else decodeLoop false count (data.length + 1) ∅ rest

structure FileCalls where
  /-- `stat` in `wakeup_room` succeeds and finds a regular file. -/
  stat : Bool := true
  /-- The file could be opened. -/
  opened : Bool := true
  /-- `read` returned as many bytes as `stat` had reported. -/
  read : Bool := true
  /-- `rename` of a corrupt file succeeds. -/
  renamed : Bool := true

/-- What `wakeup_room` leaves behind: the records of the room, the file under
its name, and whether the records were loaded. -/
structure Wakeup where
  keys : FiniteMap Bytes Record
  file : Option Bytes
  loaded : Bool

/-- `wakeup_room`: a file that is absent or cannot be read is left alone, a
corrupt one is renamed aside; in all these cases the room keeps what it has. -/
def wakeupRoom (keys : FiniteMap Bytes Record) (file : Option Bytes) (calls : FileCalls) :
    Wakeup :=
  match file with
  | none => { keys, file, loaded := false }
  | some data =>
      if !calls.stat || !calls.opened || (decide (data ≠ []) && !calls.read) then
        { keys, file, loaded := false }
      else
        match decode data with
        | none => { keys, file := if calls.renamed then none else file, loaded := false }
        | some loaded => { keys := loaded, file, loaded := true }

/-! ## Reading back what was written -/

/-- The fields of a record have the types of the source. -/
structure Fits (key : Bytes) (record : Record) : Prop where
  key : key.length < 2 ^ 64
  value : record.value.length < 2 ^ 64
  deadline : -2 ^ 63 ≤ record.expireAt ∧ record.expireAt < 2 ^ 63
  timestamp : record.timestampMs < 2 ^ 64
  node : record.nodeId < 2 ^ 32

theorem decodeRecord_encodeRecord {key : Bytes} {record : Record} (fits : Fits key record)
    (rest : Bytes) :
    decodeRecord true (encodeRecord key record ++ rest) =
      some ((key, record.normalized), rest) := by
  have klen : ∀ tail, readLittleEndian 8 (littleEndian 8 key.length ++ tail) =
      some (key.length, tail) := readLittleEndian_append fits.key
  have vlen : ∀ tail, readLittleEndian 8 (littleEndian 8 record.value.length ++ tail) =
      some (record.value.length, tail) := readLittleEndian_append fits.value
  have deadline : ∀ tail,
      readLittleEndian 8 (littleEndian 8 (unsigned record.expireAt) ++ tail) =
        some (unsigned record.expireAt, tail) :=
    readLittleEndian_append (unsigned_lt record.expireAt)
  have stamp : ∀ tail, readLittleEndian 8 (littleEndian 8 record.timestampMs ++ tail) =
      some (record.timestampMs, tail) := readLittleEndian_append fits.timestamp
  have node : ∀ tail, readLittleEndian 4 (littleEndian 4 record.nodeId ++ tail) =
      some (record.nodeId, tail) := readLittleEndian_append fits.node
  unfold decodeRecord encodeRecord
  simp only [List.append_assoc, klen, vlen, deadline, stamp, node, readBytes_append,
    signed_unsigned fits.deadline.1 fits.deadline.2, if_true, Option.bind_eq_bind,
    Option.bind_some]
  rfl

def insertAll (loaded : FiniteMap Bytes Record) (pairs : List (Bytes × Record)) :
    FiniteMap Bytes Record :=
  pairs.foldl (fun map pair => map.insert pair.1 pair.2.normalized) loaded

theorem entries_insertAll {pairs : List (Bytes × Record)} {loaded : FiniteMap Bytes Record}
    (distinct : (pairs.map Prod.fst).Nodup) (fresh : ∀ pair ∈ pairs, pair.1 ∉ loaded) :
    (insertAll loaded pairs).entries =
      (pairs.map fun pair => (⟨pair.1, pair.2.normalized⟩ : Sigma fun _ => Record)).reverse ++
        loaded.entries := by
  induction pairs generalizing loaded with
  | nil => rfl
  | cons pair rest induction =>
      rcases List.nodup_cons.mp distinct with ⟨absent, others⟩
      have step : ∀ other ∈ rest, other.1 ∉ loaded.insert pair.1 pair.2.normalized := by
        intro other member
        rw [AList.mem_insert, not_or]
        refine ⟨?_, fresh other (List.mem_cons_of_mem _ member)⟩
        intro same
        exact absent (List.mem_map.mpr ⟨other, member, same⟩)
      change (insertAll (loaded.insert pair.1 pair.2.normalized) rest).entries = _
      rw [induction others step,
        AList.entries_insert_of_notMem (fresh pair List.mem_cons_self)]
      simp

theorem decodeLoop_encodeRecords {pairs : List (Bytes × Record)}
    {loaded : FiniteMap Bytes Record} {count rounds : Nat}
    (fits : ∀ pair ∈ pairs, Fits pair.1 pair.2) (distinct : (pairs.map Prod.fst).Nodup)
    (fresh : ∀ pair ∈ pairs, pair.1 ∉ loaded)
    (total : count = loaded.entries.length + pairs.length) (enough : pairs.length < rounds) :
    decodeLoop true count rounds loaded (encodeRecords pairs) =
      some (insertAll loaded pairs) := by
  induction pairs generalizing loaded rounds with
  | nil =>
      rcases Nat.exists_eq_succ_of_ne_zero (Nat.ne_of_gt enough) with ⟨rounds, rfl⟩
      rw [decodeLoop, if_neg (by simp [total])]
      rfl
  | cons pair rest induction =>
      rcases Nat.exists_eq_succ_of_ne_zero (Nat.ne_of_gt (Nat.zero_lt_of_lt enough)) with
        ⟨rounds, rfl⟩
      rcases List.nodup_cons.mp distinct with ⟨absent, others⟩
      have missing : pair.1 ∉ loaded := fresh pair List.mem_cons_self
      have step : ∀ other ∈ rest, other.1 ∉ loaded.insert pair.1 pair.2.normalized := by
        intro other member
        rw [AList.mem_insert, not_or]
        refine ⟨?_, fresh other (List.mem_cons_of_mem _ member)⟩
        intro same
        exact absent (List.mem_map.mpr ⟨other, member, same⟩)
      have more : loaded.entries.length < count := by
        rw [total, List.length_cons]
        omega
      have grown : (loaded.insert pair.1 pair.2.normalized).entries.length =
          loaded.entries.length + 1 := by
        rw [AList.entries_insert_of_notMem missing, List.length_cons]
      have read : decodeRecord true (encodeRecords (pair :: rest)) =
          some ((pair.1, pair.2.normalized), encodeRecords rest) :=
        decodeRecord_encodeRecord (fits pair List.mem_cons_self) (encodeRecords rest)
      rw [decodeLoop, if_pos more, read]
      exact induction (fun other member => fits other (List.mem_cons_of_mem _ member)) others
        step (by rw [grown, total, List.length_cons]; omega)
        (by rw [List.length_cons] at enough; omega)

theorem decode_encode {keys : FiniteMap Bytes Record}
    (fits : ∀ key record, keys.lookup key = some record → Fits key record)
    (few : keys.toPairs.length < 2 ^ 64) :
    ∃ loaded, decode (encode keys) = some loaded ∧
      loaded.entries.Perm (keys.mapValues Record.normalized).entries := by
  have each : ∀ pair ∈ keys.toPairs, Fits pair.1 pair.2 := by
    intro pair member
    exact fits pair.1 pair.2 ((keys.mem_toPairs pair.1 pair.2).mp member)
  have version : ∀ tail, readLittleEndian 4 (littleEndian 4 snapshotVersion ++ tail) =
      some (snapshotVersion, tail) := readLittleEndian_append (by decide)
  have count : ∀ tail, readLittleEndian 8 (littleEndian 8 keys.toPairs.length ++ tail) =
      some (keys.toPairs.length, tail) := readLittleEndian_append few
  have magic : snapshotMagic.length = 4 := by decide
  have long : ∀ pairs : List (Bytes × Record), pairs.length ≤ (encodeRecords pairs).length := by
    intro pairs
    induction pairs with
    | nil => simp
    | cons pair rest induction =>
        have size : 1 ≤ (encodeRecord pair.1 pair.2).length := by
          simp [encodeRecord]
          omega
        change _ ≤ (encodeRecord pair.1 pair.2 ++ encodeRecords rest).length
        rw [List.length_cons, List.length_append]
        omega
  have size : (encode keys).length = 16 + (encodeRecords keys.toPairs).length := by
    simp [encode, magic]
    omega
  have bound := long keys.toPairs
  have front : (encode keys).take 4 = snapshotMagic := by
    rw [encode, ← magic, List.take_left]
  have rest : (encode keys).drop 4 = littleEndian 4 snapshotVersion ++
      (littleEndian 8 keys.toPairs.length ++ encodeRecords keys.toPairs) := by
    rw [encode, ← magic, List.drop_left]
  have looped : decodeLoop true keys.toPairs.length ((encode keys).length + 1) ∅
      (encodeRecords keys.toPairs) = some (insertAll ∅ keys.toPairs) :=
    decodeLoop_encodeRecords each keys.toPairs_nodup_keys (by simp) (by simp) (by omega)
  refine ⟨insertAll ∅ keys.toPairs, ?_, ?_⟩
  · rw [decode, if_neg (by omega), if_pos front, rest, version]
    simp only [ne_eq, not_true_eq_false, if_false, count]
    rw [if_neg (by omega), looped]
  · rw [entries_insertAll keys.toPairs_nodup_keys (by simp)]
    have same : (keys.toPairs.map fun pair =>
        (⟨pair.1, pair.2.normalized⟩ : Sigma fun _ => Record)) =
        (keys.mapValues Record.normalized).entries := by
      simp [FiniteMap.toPairs, FiniteMap.mapValues]
    rw [same]
    simp

end SnapshotManager

end SomniumDB
