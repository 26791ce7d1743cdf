import SomniumDB.Core.RespCodec

/-! # Reading back the append-only file -/

namespace SomniumDB.AofRecord

open Bytes FsUtil Resp

/-- The record is read back from the bytes written for it, wherever they stand
in the file. -/
def Readable (record : AofRecord) : Prop :=
  ∀ front back, ∃ tokens,
    parse (front ++ record.encodeRecord ++ back) front.length =
        .complete (front.length + record.encodeRecord.length) tokens ∧
      buildRecord .v3 tokens = some record

/-- The integers of a record are within the types of the source, and its
strings within the limit of the parser. -/
structure Bounded (record : AofRecord) : Prop where
  room : record.room.length ≤ kMaxBulk
  args : ∀ arg ∈ record.args, arg.length ≤ kMaxBulk
  deadline : 0 ≤ record.expireAt ∧ record.expireAt ≤ llongMax
  timestamp : record.timestampMs ≤ uint64Max
  node : record.nodeId ≤ uint32Max

/-- The fields of a record have the types of the source, and the record is
within the limits of the parser. -/
structure Fits (record : AofRecord) : Prop where
  room : record.room.length ≤ kMaxBulk
  args : ∀ arg ∈ record.args, arg.length ≤ kMaxBulk
  few : record.args.length + 5 ≤ kMaxArgs
  deadline : llongMin ≤ record.expireAt ∧ record.expireAt ≤ llongMax
  timestamp : record.timestampMs ≤ uint64Max
  node : record.nodeId ≤ uint32Max

variable {record : AofRecord}

theorem length_tokens (record : AofRecord) : record.tokens.length = record.args.length + 5 := by
  simp [tokens]

theorem buildRecord_tokens (low : llongMin ≤ record.expireAt)
    (high : record.expireAt ≤ llongMax) (stamp : record.timestampMs ≤ uint64Max)
    (small : record.nodeId ≤ uint32Max) : buildRecord .v3 record.tokens = some record := by
  have count := length_tokens record
  have expireAt := parseI64_decimalInt record.expireAt low high
  have timestamp := parseU64_decimal record.timestampMs stamp
  have node := parseU64_decimal record.nodeId (small.trans (by decide))
  have fields : record.tokens[record.args.length + 1]? = some kMetaToken ∧
      record.tokens[record.args.length + 2]? = some (decimalInt record.expireAt) ∧
      record.tokens[record.args.length + 3]? = some (decimal record.timestampMs) ∧
      record.tokens[record.args.length + 4]? = some (decimal record.nodeId) := by
    simp [tokens]
  have args : (record.tokens.take (record.args.length + 1)).drop 1 = record.args := by
    simp [tokens]
  unfold buildRecord
  simp only [count, show record.args.length + 5 - 4 = record.args.length + 1
    by omega, show record.args.length + 5 - 3 = record.args.length + 2 by omega,
    show record.args.length + 5 - 2 = record.args.length + 3 by omega,
    show record.args.length + 5 - 1 = record.args.length + 4 by omega,
    fields, args, if_neg (show ¬ record.args.length + 5 < 5 by omega), ne_eq,
    not_true_eq_false, if_false, Option.getD_some, expireAt, timestamp, node,
    Option.bind_eq_bind, Option.bind_some, if_neg (Nat.not_lt.mpr small)]
  rfl

theorem length_decimalInt_le {number : Int} (low : llongMin ≤ number)
    (high : number ≤ llongMax) : (decimalInt number).length ≤ 21 := by
  have range : llongMin = -(2 ^ 63) ∧ llongMax = 2 ^ 63 - 1 := ⟨rfl, rfl⟩
  have digits : (decimal number.natAbs).length ≤ 20 := by
    apply length_decimal_le
    simp only [uint64Max]
    omega
  unfold decimalInt
  by_cases negative : number < 0
  · rw [if_pos negative]
    rw [List.length_cons]
    omega
  · rw [if_neg negative]
    omega

theorem tokens_small (room : record.room.length ≤ kMaxBulk)
    (args : ∀ arg ∈ record.args, arg.length ≤ kMaxBulk)
    (low : llongMin ≤ record.expireAt) (high : record.expireAt ≤ llongMax)
    (stamp : record.timestampMs ≤ uint64Max) (small : record.nodeId ≤ uint32Max) :
    ∀ token ∈ record.tokens, token.length ≤ kMaxBulk := by
  have numeral : 21 ≤ kMaxBulk ∧ kMetaToken.length ≤ kMaxBulk := by decide
  have expireAt := length_decimalInt_le low high
  have timestamp := length_decimal_le stamp
  have node := length_decimal_le (small.trans (by decide))
  intro token member
  simp only [tokens, List.mem_cons, List.mem_append, List.not_mem_nil, or_false] at member
  rcases member with rfl | inArgs | rfl | rfl | rfl | rfl
  · exact room
  · exact args token inArgs
  · exact numeral.2
  · exact expireAt.trans numeral.1
  · exact timestamp.trans ((by decide : 20 ≤ 21).trans numeral.1)
  · exact node.trans ((by decide : 20 ≤ 21).trans numeral.1)

theorem Bounded.low (bounded : record.Bounded) : llongMin ≤ record.expireAt :=
  le_trans (by decide) bounded.deadline.1

theorem parse_encodeRecord (bounded : record.Bounded)
    (fits : record.args.length + 5 ≤ uint64Max) (front back : Bytes) :
    parse (front ++ record.encodeRecord ++ back) front.length =
      if kMaxArgs < record.args.length + 5 then .malformed
      else .complete (front.length + record.encodeRecord.length) record.tokens := by
  rw [← length_tokens] at fits ⊢
  exact parse_encoded front back record.tokens (tokens_small bounded.room bounded.args bounded.low
    bounded.deadline.2 bounded.timestamp bounded.node) fits

/-- A bounded record is read back exactly when the five tokens that the file
adds stay within the limit on the number of arguments. -/
theorem readable_iff (bounded : record.Bounded)
    (fits : record.args.length + 5 ≤ uint64Max) :
    record.Readable ↔ record.args.length + 5 ≤ kMaxArgs := by
  constructor
  · intro readable
    rcases readable [] [] with ⟨tokens, parsed, _⟩
    rw [parse_encodeRecord bounded fits] at parsed
    by_contra many
    rw [if_pos (Nat.lt_of_not_le many)] at parsed
    cases parsed
  · intro few front back
    refine ⟨record.tokens, ?_, buildRecord_tokens bounded.low bounded.deadline.2
      bounded.timestamp bounded.node⟩
    rw [parse_encodeRecord bounded fits, if_neg (Nat.not_lt.mpr few)]

/-! ## Records cut short -/

/-- The bytes are read as these tokens wherever they stand, and not at all while
some are missing. -/
structure Encodes (bytes : Bytes) (tokens : List Bytes) : Prop where
  whole : ∀ front back, parse (front ++ bytes ++ back) front.length =
    .complete (front.length + bytes.length) tokens
  cut : ∀ front part missing, bytes = part ++ missing → missing ≠ [] →
    parse (front ++ part) front.length = .needMore

theorem encodes_encode {args : List Bytes} (small : ∀ arg ∈ args, arg.length ≤ kMaxBulk)
    (few : args.length ≤ kMaxArgs) : Encodes (encode args) args where
  whole front back := by
    rw [parse_encoded front back args small (few.trans (by decide)),
      if_neg (Nat.not_lt.mpr few)]
  cut front _ _ := parse_cut front small few

theorem Fits.encodes (fits : record.Fits) : Encodes record.encodeRecord record.tokens := by
  apply encodes_encode
  · exact tokens_small fits.room fits.args fits.deadline.1 fits.deadline.2 fits.timestamp fits.node
  · rw [length_tokens]
    exact fits.few

theorem Fits.built (fits : record.Fits) : buildRecord .v3 record.tokens = some record :=
  buildRecord_tokens fits.deadline.1 fits.deadline.2 fits.timestamp fits.node

theorem encodeRecord_ne_nil (record : AofRecord) : record.encodeRecord ≠ [] := by
  simp [encodeRecord, encode]

end SomniumDB.AofRecord
