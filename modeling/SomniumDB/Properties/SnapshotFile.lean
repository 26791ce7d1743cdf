import SomniumDB.Storage.SnapshotLoader

/-! # The bytes of a snapshot file

Whatever a file holds, loading it ends, stays inside the buffer, and either replaces the
records of the room or leaves them alone. The file of a hibernated room is loaded as it
was written, and no part of it that is cut off is taken for a file. -/

namespace SomniumDB

open Bytes Cursor

namespace SnapshotManager

/-! ## Files that are cut off -/

theorem readLittleEndian_extend {width : Nat} {front rest : Bytes} {number : Nat} (tail : Bytes)
    (read : readLittleEndian width front = some (number, rest)) :
    readLittleEndian width (front ++ tail) = some (number, rest ++ tail) := by
  induction width generalizing front number with
  | zero =>
      cases read
      rfl
  | succ width induction =>
      cases front with
      | nil => cases read
      | cons byte front =>
          rw [readLittleEndian, Option.map_eq_some_iff] at read
          rcases read with ⟨⟨low, left⟩, inner, equal⟩
          cases equal
          rw [List.cons_append, readLittleEndian, induction inner]
          rfl

theorem readBytes_extend {count : Nat} {front bytes rest : Bytes} (tail : Bytes)
    (read : readBytes count front = some (bytes, rest)) :
    readBytes count (front ++ tail) = some (bytes, rest ++ tail) := by
  unfold readBytes at read ⊢
  by_cases enough : count ≤ front.length
  · rw [if_pos enough] at read
    cases read
    rw [if_pos (by rw [List.length_append]; omega), List.take_append_of_le_length enough,
      List.drop_append_of_le_length enough]
  · rw [if_neg enough] at read
    cases read

theorem decodeRecord_extend {isV2 : Bool} {front rest : Bytes} {entry : Bytes × Record}
    (tail : Bytes) (read : decodeRecord isV2 front = some (entry, rest)) :
    decodeRecord isV2 (front ++ tail) = some (entry, rest ++ tail) := by
  unfold decodeRecord at read ⊢
  simp only [Option.bind_eq_bind, Option.bind_eq_some_iff, Prod.exists] at read
  obtain ⟨klen, afterKlen, readKlen, key, afterKey, readKey, vlen, afterVlen, readVlen, value,
    afterValue, readValue, expireAt, afterDeadline, readDeadline, last⟩ := read
  simp only [readLittleEndian_extend tail readKlen, readBytes_extend tail readKey,
    readLittleEndian_extend tail readVlen, readBytes_extend tail readValue,
    readLittleEndian_extend tail readDeadline, Option.bind_eq_bind, Option.bind_some]
  cases isV2 with
  | false =>
      cases last
      rfl
  | true =>
      rw [if_pos rfl] at last ⊢
      simp only [Option.bind_eq_some_iff, Prod.exists] at last
      rcases last with ⟨ts, afterTs, readTs, node, afterNode, readNode, equal⟩
      cases equal
      simp only [readLittleEndian_extend tail readTs, readLittleEndian_extend tail readNode,
        Option.bind_some]

/-- Records that are cut off are fewer than the header promises. -/
theorem decodeLoop_cut {pairs : List (Bytes × Record)} {loaded : FiniteMap Bytes Record}
    {count rounds : Nat} {front tail : Bytes}
    (fits : ∀ pair ∈ pairs, Fits pair.1 pair.2) (distinct : (pairs.map Prod.fst).Nodup)
    (fresh : ∀ pair ∈ pairs, pair.1 ∉ loaded)
    (total : count = loaded.entries.length + pairs.length)
    (cut : front ++ tail = encodeRecords pairs) (strict : tail ≠ []) :
    decodeLoop true count rounds loaded front = none := by
  induction pairs generalizing loaded rounds front with
  | nil =>
      exact absurd (List.append_eq_nil_iff.mp cut).2 strict
  | cons pair rest induction =>
      cases rounds with
      | zero => rfl
      | succ rounds =>
          rcases List.nodup_cons.mp distinct with ⟨absent, others⟩
          have missing : pair.1 ∉ loaded := fresh pair List.mem_cons_self
          have more : loaded.entries.length < count := by
            rw [total, List.length_cons]
            omega
          rw [decodeLoop, if_pos more]
          cases read : decodeRecord true front with
          | none => rfl
          | some result =>
              rcases result with ⟨entry, after⟩
              have extended := decodeRecord_extend tail read
              have whole : decodeRecord true (encodeRecords (pair :: rest)) =
                  some ((pair.1, pair.2.normalized), encodeRecords rest) :=
                decodeRecord_encodeRecord (fits pair List.mem_cons_self) (encodeRecords rest)
              rw [cut, whole] at extended
              rcases Prod.mk.inj (Option.some.inj extended) with ⟨same, left⟩
              subst same
              have grown : (loaded.insert pair.1 pair.2.normalized).entries.length =
                  loaded.entries.length + 1 := by
                rw [AList.entries_insert_of_notMem missing, List.length_cons]
              refine induction (fun other member => fits other (List.mem_cons_of_mem _ member))
                others ?_ (by rw [grown, total, List.length_cons]; omega) left.symm
              intro other member
              rw [AList.mem_insert, not_or]
              refine ⟨?_, fresh other (List.mem_cons_of_mem _ member)⟩
              intro same
              exact absent (List.mem_map.mpr ⟨other, member, same⟩)

variable {keys : FiniteMap Bytes Record}

/-- No strict prefix of the file of a room is a file. -/
theorem decode_cut (fits : ∀ key record, keys.lookup key = some record → Fits key record)
    (few : keys.toPairs.length < 2 ^ 64) {front tail : Bytes} (cut : front ++ tail = encode keys)
    (strict : tail ≠ []) : decode front = none := by
  have each : ∀ pair ∈ keys.toPairs, Fits pair.1 pair.2 := by
    intro pair member
    exact fits pair.1 pair.2 ((keys.mem_toPairs pair.1 pair.2).mp member)
  have magic : snapshotMagic.length = 4 := by decide
  unfold decode
  by_cases short : front.length < 8
  · rw [if_pos short]
  · have start : front.take 4 = snapshotMagic := by
      have longer : (front ++ tail).take 4 = front.take 4 :=
        List.take_append_of_le_length (by omega)
      rw [← longer, cut, encode, ← magic, List.take_left]
    rw [if_neg short, if_pos start]
    have after : front.drop 4 ++ tail = littleEndian 4 snapshotVersion ++
        (littleEndian 8 keys.toPairs.length ++ encodeRecords keys.toPairs) := by
      rw [← List.drop_append_of_le_length (by omega), cut, encode, ← magic, List.drop_left]
    cases version : readLittleEndian 4 (front.drop 4) with
    | none => rfl
    | some result =>
        rcases result with ⟨number, rest⟩
        have extended := readLittleEndian_extend tail version
        rw [after, readLittleEndian_append (by decide)] at extended
        rcases Prod.mk.inj (Option.some.inj extended) with ⟨same, left⟩
        subst same
        dsimp only
        rw [if_neg (fun differ => differ rfl)]
        cases header : readLittleEndian 8 rest with
        | none => rfl
        | some result =>
            rcases result with ⟨count, records⟩
            have extended := readLittleEndian_extend tail header
            rw [← left, readLittleEndian_append few] at extended
            rcases Prod.mk.inj (Option.some.inj extended) with ⟨same, left⟩
            subst same
            dsimp only
            by_cases few : front.length < keys.toPairs.length
            · rw [if_pos few]
            · rw [if_neg few]
              exact decodeLoop_cut each keys.toPairs_nodup_keys (by simp) (by simp) left.symm
                strict

/-! ## What is loaded -/

/-- Records whose fields have their types, in a number that has its type. -/
structure Typed (keys : FiniteMap Bytes Record) : Prop where
  fits : ∀ key record, keys.lookup key = some record → Fits key record
  few : keys.entries.length < 2 ^ 64

theorem Typed.few_pairs (typed : Typed keys) : keys.toPairs.length < 2 ^ 64 := by
  have few := typed.few
  unfold FiniteMap.toPairs
  rwa [List.length_map]

theorem readLittleEndian_lt {width : Nat} {data rest : Bytes} {number : Nat}
    (read : readLittleEndian width data = some (number, rest)) : number < 256 ^ width := by
  induction width generalizing data number with
  | zero =>
      cases read
      exact Nat.one_pos
  | succ width induction =>
      cases data with
      | nil => cases read
      | cons byte tail =>
          rw [readLittleEndian, Option.map_eq_some_iff] at read
          rcases read with ⟨⟨low, left⟩, inner, equal⟩
          cases equal
          have small := induction inner
          have digit := byte.toNat_lt
          rw [Nat.pow_succ]
          omega

theorem readBytes_length {count : Nat} {data bytes rest : Bytes}
    (read : readBytes count data = some (bytes, rest)) :
    bytes.length = count ∧ count ≤ data.length := by
  unfold readBytes at read
  by_cases enough : count ≤ data.length
  · rw [if_pos enough] at read
    cases read
    exact ⟨List.length_take_of_le enough, enough⟩
  · rw [if_neg enough] at read
    cases read

theorem signed_bounds {number : Nat} (small : number < 256 ^ 8) :
    -2 ^ 63 ≤ signed number ∧ signed number < 2 ^ 63 := by
  unfold signed
  by_cases positive : number < 2 ^ 63
  · rw [if_pos positive]
    omega
  · rw [if_neg positive]
    omega

theorem normalize_lt {ts : Nat} (small : ts < 2 ^ 64) : Hlc.normalize ts < 2 ^ 64 := by
  unfold Hlc.normalize Hlc.kLegacyLimit
  by_cases legacy : ts < 2 ^ 47
  · rw [if_pos legacy]
    omega
  · rw [if_neg legacy]
    omega

theorem decodeRecord_fits {isV2 : Bool} {data rest : Bytes} {key : Bytes} {record : Record}
    (small : data.length < 2 ^ 64) (read : decodeRecord isV2 data = some ((key, record), rest)) :
    Fits key record := by
  unfold decodeRecord at read
  simp only [Option.bind_eq_bind, Option.bind_eq_some_iff, Prod.exists] at read
  obtain ⟨klen, afterKlen, readKlen, found, afterKey, readKey, vlen, afterVlen, readVlen, value,
    afterValue, readValue, expireAt, afterDeadline, readDeadline, last⟩ := read
  have first := readLittleEndian_shorter readKlen
  have second := readBytes_shorter readKey
  have third := readLittleEndian_shorter readVlen
  have keyLength := readBytes_length readKey
  have valueLength := readBytes_length readValue
  have deadline := signed_bounds (readLittleEndian_lt readDeadline)
  have keySmall : found.length < 2 ^ 64 := by
    omega
  have valueSmall : value.length < 2 ^ 64 := by
    omega
  cases isV2 with
  | false =>
      have old : Hlc.normalize 0 < 2 ^ 64 := by
        rw [(Hlc.normalize_eq_self_iff 0).mpr (.inl rfl)]
        omega
      cases last
      exact ⟨keySmall, valueSmall, deadline, old, (by omega : 1 < 2 ^ 32)⟩
  | true =>
      rw [if_pos rfl] at last
      simp only [Option.bind_eq_some_iff, Prod.exists] at last
      rcases last with ⟨ts, afterTs, readTs, node, afterNode, readNode, equal⟩
      cases equal
      exact ⟨keySmall, valueSmall, deadline, normalize_lt (readLittleEndian_lt readTs),
        readLittleEndian_lt readNode⟩

theorem decodeLoop_typed {isV2 : Bool} {count rounds : Nat} {loaded result : FiniteMap Bytes Record}
    {data : Bytes} (small : data.length < 2 ^ 64)
    (fits : ∀ key record, loaded.lookup key = some record → Fits key record)
    (few : loaded.entries.length ≤ count)
    (decoded : decodeLoop isV2 count rounds loaded data = some result) :
    (∀ key record, result.lookup key = some record → Fits key record) ∧
      result.entries.length ≤ count := by
  induction rounds generalizing loaded data with
  | zero => cases decoded
  | succ rounds induction =>
      unfold decodeLoop at decoded
      by_cases more : loaded.entries.length < count
      · rw [if_pos more] at decoded
        cases read : decodeRecord isV2 data with
        | none =>
            rw [read] at decoded
            cases decoded
        | some next =>
            rcases next with ⟨⟨key, record⟩, rest⟩
            rw [read] at decoded
            have shorter := decodeRecord_shorter read
            refine induction (by omega) ?_ ?_ decoded
            · intro other found stored
              rw [FiniteMap.lookup_insert_if] at stored
              by_cases same : other = key
              · rw [if_pos same] at stored
                cases stored
                exact same ▸ decodeRecord_fits small read
              · rw [if_neg same] at stored
                exact fits other found stored
            · have grown : (loaded.insert key record).entries.length ≤
                  loaded.entries.length + 1 := by
                rw [AList.entries_insert, List.length_cons]
                exact Nat.add_le_add_right (List.kerase_sublist key loaded.entries).length_le 1
              omega
      · rw [if_neg more] at decoded
        cases decoded
        exact ⟨fits, few⟩

/-- What is loaded from a file has the types of the source. -/
theorem typed_of_decode {data : Bytes} {loaded : FiniteMap Bytes Record}
    (small : data.length < 2 ^ 64) (decoded : decode data = some loaded) : Typed loaded := by
  have start : ∀ key record, (∅ : FiniteMap Bytes Record).lookup key = some record →
      Fits key record := by
    intro key record stored
    cases stored
  have looped : ∀ {isV2 count} {rest : Bytes}, rest.length ≤ data.length → count ≤ data.length →
      decodeLoop isV2 count (data.length + 1) ∅ rest = some loaded → Typed loaded := by
    intro isV2 count rest shorter bounded ended
    rcases decodeLoop_typed (by omega) start (Nat.zero_le _) ended with ⟨fits, few⟩
    exact ⟨fits, by omega⟩
  unfold decode at decoded
  by_cases less : data.length < 8
  · rw [if_pos less] at decoded
    cases decoded
  · rw [if_neg less] at decoded
    by_cases same : List.take 4 data = snapshotMagic
    · rw [if_pos same] at decoded
      rcases readVersion : readLittleEndian 4 (data.drop 4) with _ | ⟨version, rest⟩
      · simp only [readVersion] at decoded
        cases decoded
      · simp only [readVersion] at decoded
        have first := readLittleEndian_shorter readVersion
        rw [List.length_drop] at first
        by_cases differs : version ≠ snapshotVersion
        · rw [if_pos differs] at decoded
          cases decoded
        · rw [if_neg differs] at decoded
          rcases readCount : readLittleEndian 8 rest with _ | ⟨count, records⟩
          · simp only [readCount] at decoded
            cases decoded
          · simp only [readCount] at decoded
            have second := readLittleEndian_shorter readCount
            by_cases short : data.length < count
            · rw [if_pos short] at decoded
              cases decoded
            · rw [if_neg short] at decoded
              exact looped (by omega) (by omega) decoded
    · rw [if_neg same] at decoded
      rcases readCount : readLittleEndian 8 data with _ | ⟨count, records⟩
      · simp only [readCount] at decoded
        cases decoded
      · simp only [readCount] at decoded
        have first := readLittleEndian_shorter readCount
        by_cases short : data.length < count
        · rw [if_pos short] at decoded
          cases decoded
        · rw [if_neg short] at decoded
          exact looped (by omega) (by omega) decoded

/-! ## The main result -/

/-- A room whose file can be held in memory and whose numbers have their types. -/
structure Storable (keys : FiniteMap Bytes Record) : Prop where
  size : (encode keys).length < wordSize
  deadline : ∀ key record, keys.lookup key = some record →
    -2 ^ 63 ≤ record.expireAt ∧ record.expireAt < 2 ^ 63
  timestamp : ∀ key record, keys.lookup key = some record → record.timestampMs < 2 ^ 64
  node : ∀ key record, keys.lookup key = some record → record.nodeId < 2 ^ 32

theorem length_encodeRecords_le (pairs : List (Bytes × Record)) :
    pairs.length ≤ (encodeRecords pairs).length ∧
      ∀ pair ∈ pairs, pair.1.length + pair.2.value.length ≤ (encodeRecords pairs).length := by
  induction pairs with
  | nil => simp
  | cons pair rest induction =>
      have own : pair.1.length + pair.2.value.length + 1 ≤
          (encodeRecord pair.1 pair.2).length := by
        simp [encodeRecord]
        omega
      have split : (encodeRecords (pair :: rest)).length =
          (encodeRecord pair.1 pair.2).length + (encodeRecords rest).length := by
        rw [encodeRecords, List.flatMap_cons, List.length_append]
        rfl
      rw [split, List.length_cons]
      refine ⟨by omega, ?_⟩
      intro other member
      rcases List.mem_cons.mp member with same | later
      · subst same
        omega
      · exact (induction.2 other later).trans (Nat.le_add_left _ _)

theorem length_encode (keys : FiniteMap Bytes Record) :
    (encode keys).length = 16 + (encodeRecords keys.toPairs).length := by
  have magic : snapshotMagic.length = 4 := by decide
  simp only [encode, List.length_append, length_littleEndian, magic]
  omega

theorem Storable.few (storable : Storable keys) : keys.toPairs.length < 2 ^ 64 := by
  have size := storable.size
  rw [length_encode, wordSize] at size
  have long := (length_encodeRecords_le keys.toPairs).1
  omega

theorem Storable.fits (storable : Storable keys) (key : Bytes) (record : Record)
    (found : keys.lookup key = some record) : Fits key record := by
  have size := storable.size
  rw [length_encode, wordSize] at size
  have long := (length_encodeRecords_le keys.toPairs).2 (key, record)
    ((keys.mem_toPairs key record).mpr found)
  dsimp only at long
  exact ⟨by omega, by omega, storable.deadline key record found,
    storable.timestamp key record found, storable.node key record found⟩

/-- What a record keeps for certain when its room goes to sleep. -/
def content (record : Record) : Bytes × Int × Nat :=
  (record.value, record.expireAt, record.nodeId)

/-- Loading any bytes ends inside the buffer, with records or with a file that is reported
as corrupt and a room that is as it was; the file of a room is loaded with the same keys,
and every strict prefix of it is corrupt. -/
theorem snapshot_loading :
    (∀ data : Bytes, data.length < wordSize → ∀ (keys : FiniteMap Bytes Record) (renamed : Bool),
      (load data = .error .corrupt ∧
          (wakeupRoom keys (some data) { renamed }).keys = keys ∧
          (wakeupRoom keys (some data) { renamed }).loaded = false) ∨
        ∃ loaded, load data = .ok loaded ∧
          wakeupRoom keys (some data) { renamed } =
            { keys := loaded, file := some data, loaded := true }) ∧
    ∀ keys : FiniteMap Bytes Record, Storable keys →
      (∃ loaded, load (encode keys) = .ok loaded ∧
        ∀ key, (loaded.lookup key).map content = (keys.lookup key).map content) ∧
      ∀ front tail, front ++ tail = encode keys → tail ≠ [] → load front = .error .corrupt := by
  constructor
  · intro data small keys renamed
    have agreed := load_eq small
    cases decoded : decode data with
    | none =>
        rw [decoded] at agreed
        exact .inl ⟨agreed, by simp [wakeupRoom, decoded], by simp [wakeupRoom, decoded]⟩
    | some loaded =>
        rw [decoded] at agreed
        exact .inr ⟨loaded, agreed, by simp [wakeupRoom, decoded]⟩
  · intro keys storable
    constructor
    · rcases decode_encode storable.fits storable.few with ⟨loaded, decoded, perm⟩
      refine ⟨loaded, (load_eq storable.size).trans (congrArg asOutcome decoded), ?_⟩
      intro key
      have same : loaded.lookup key = (keys.mapValues Record.normalized).lookup key :=
        AList.perm_lookup perm
      rw [same, FiniteMap.lookup_mapValues, Option.map_map]
      rfl
    · intro front tail cut strict
      have shorter : front.length < wordSize := by
        have size := storable.size
        rw [← cut, List.length_append] at size
        omega
      rw [load_eq shorter, decode_cut storable.fits storable.few cut strict]
      rfl

/-- A room with one key, whose file without its last byte is corrupt. -/
theorem snapshot_loading_sample :
    load (encode (AList.insert (ascii "k") { value := ascii "v" } ∅)).dropLast =
      .error .corrupt := by
  refine (snapshot_loading.2 (AList.insert (ascii "k") { value := ascii "v" } ∅) ?_).2 _ [0] ?_ ?_
  · have found : ∀ key record, AList.lookup key (AList.insert (ascii "k")
        ({ value := ascii "v" } : Record) (∅ : FiniteMap Bytes Record)) = some record →
          record = { value := ascii "v" } := by
      intro key record stored
      rw [FiniteMap.lookup_insert_if] at stored
      by_cases same : key = ascii "k"
      · rw [if_pos same] at stored
        exact (Option.some.inj stored).symm
      · rw [if_neg same] at stored
        cases stored
    refine ⟨by decide +kernel, ?_, ?_, ?_⟩ <;>
    · intro key record stored
      rw [found key record stored]
      decide
  · decide +kernel
  · exact List.cons_ne_nil _ _

end SnapshotManager

end SomniumDB
