import SomniumDB.Core.Commands

/-! # Changes

The logical content of a log: each record of the append-only file stands for
writes and deletes of single keys. -/

namespace SomniumDB

open Bytes FsUtil

/-- A room and a key. -/
abbrev Place := Bytes × Bytes

/-- One change of the logical content. -/
inductive Change
  | put (place : Place) (record : Record)
  | del (place : Place) (version : Version)
  deriving DecidableEq

/-- What a client can see of a record at a given time, now and later: its value
and its deadline, unless it has expired. -/
def visible (now : Nat) (record : Option Record) : Option (Bytes × Int) :=
  (record.filter fun held => !held.expired now).map fun held => (held.value, held.expireAt)

@[simp] theorem visible_none (now : Nat) : visible now none = none := rfl

theorem visible_some (now : Nat) (record : Record) :
    visible now (some record) =
      if record.expired now then none else some (record.value, record.expireAt) := by
  cases past : record.expired now <;> simp [visible, Option.filter_some, past]

@[simp] theorem visible_normalized (now : Nat) (record : Option Record) :
    visible now (record.map Record.normalized) = visible now record := by
  cases record with
  | none => rfl
  | some held =>
      rw [Option.map_some, visible_some, visible_some]
      rfl

/-- What is seen later depends only on what is seen now. -/
theorem visible_later {now later : Nat} (le : now ≤ later) (record : Option Record) :
    visible later record = (visible now record).filter fun shown =>
      !(decide (0 < shown.2) && decide (shown.2 < (later : Int))) := by
  cases record with
  | none => rfl
  | some held =>
      rw [visible_some, visible_some]
      cases past : held.expired now with
      | true =>
          rw [Record.expired_mono le past]
          rfl
      | false =>
          cases gone : held.expired later <;>
            simp_all [Option.filter_some, Record.expired]

theorem visible_mono {now later : Nat} (le : now ≤ later) {left right : Option Record}
    (same : visible now left = visible now right) :
    visible later left = visible later right := by
  rw [visible_later le, visible_later le, same]

/-- What can still be read of a place. -/
def unexpired (now : Nat) (record : Option Record) : Option Record :=
  record.filter fun held => !held.expired now

/-- What can be read later depends only on what can be read now. -/
theorem unexpired_later {now later : Nat} (le : now ≤ later) (record : Option Record) :
    unexpired later (unexpired now record) = unexpired later record := by
  unfold unexpired
  rw [Option.filter_filter]
  congr 1
  funext held
  cases past : held.expired now with
  | false => rfl
  | true => rw [Record.expired_mono le past]; rfl

namespace Change

def place : Change → Place
  | .put place _ => place
  | .del place _ => place

def version : Change → Version
  | .put _ record => record.version
  | .del _ version => version

/-- The record a change leaves behind. -/
def result : Change → Option Record
  | .put _ record => some record
  | .del _ _ => none

/-- The change with its timestamp moved to the hybrid format. -/
def normalized : Change → Change
  | .put place record => .put place record.normalized
  | .del place version => .del place ⟨Hlc.normalize version.ts, version.node⟩

@[simp] theorem normalized_place (change : Change) :
    change.normalized.place = change.place := by
  cases change <;> rfl

end Change

namespace AofRecord

def version (record : AofRecord) : Version :=
  ⟨record.timestampMs, record.nodeId⟩

def put (record : AofRecord) (key value : Bytes) : Change :=
  .put (record.room, key)
    { value
      expireAt := record.expireAt
      timestampMs := record.timestampMs
      nodeId := record.nodeId }

/-- The changes a logged record stands for, in order. -/
def changes (record : AofRecord) : List Change :=
  match record.args with
  | [] => []
  | name :: rest =>
      let command := upper name
      if (command = ascii "CRDTMERGE" ∧ 4 ≤ rest.length) ∨
          (command = ascii "SET" ∧ 2 ≤ rest.length) then
        [record.put (rest[0]?.getD []) (rest[1]?.getD [])]
      else if command = ascii "MSET" then
        (Db.pairsOf rest).map fun pair => record.put pair.1 pair.2
      else if (command = ascii "DEL" ∧ 1 ≤ rest.length) ∨
          (command = ascii "CRDTDEL" ∧ 3 ≤ rest.length) then
        [.del (record.room, rest[0]?.getD []) record.version]
      else []

/-- Every change of a record carries the version of the record. -/
theorem version_of_mem_changes {record : AofRecord} {change : Change}
    (member : change ∈ record.changes) : change.version = record.version := by
  unfold changes at member
  split at member
  · simp at member
  · dsimp only at member
    split at member
    · rw [List.mem_singleton.mp member]
      rfl
    · split at member
      · rcases List.mem_map.mp member with ⟨pair, _, rfl⟩
        rfl
      · split at member
        · rw [List.mem_singleton.mp member]
          rfl
        · simp at member

/-- Every change of a record is in the room of the record. -/
theorem room_of_mem_changes {record : AofRecord} {change : Change}
    (member : change ∈ record.changes) : change.place.1 = record.room := by
  unfold changes at member
  split at member
  · simp at member
  · dsimp only at member
    split at member
    · rw [List.mem_singleton.mp member]
      rfl
    · split at member
      · rcases List.mem_map.mp member with ⟨pair, _, rfl⟩
        rfl
      · split at member
        · rw [List.mem_singleton.mp member]
          rfl
        · simp at member

/-- The changes as replay applies them. The version of a merge is read again
from its arguments, where it has not been normalized yet; every other record
has the version it carries normalized once more. -/
def replayed (record : AofRecord) : List Change :=
  if (record.args.head?.map upper) = some (ascii "CRDTMERGE") then record.changes
  else record.changes.map Change.normalized

theorem room_of_mem_replayed {record : AofRecord} {change : Change}
    (member : change ∈ record.replayed) : change.place.1 = record.room := by
  unfold replayed at member
  by_cases same : Option.map upper record.args.head? = some (ascii "CRDTMERGE")
  · rw [if_pos same] at member
    exact room_of_mem_changes member
  · rw [if_neg same] at member
    rcases List.mem_map.mp member with ⟨applied, present, rfl⟩
    rw [Change.normalized_place]
    exact room_of_mem_changes present

/-- The record is one that the handlers write: replaying it applies exactly
its changes. A merge is replayed from its arguments, which then agree with the
version it carries. -/
def Sound (record : AofRecord) : Prop :=
  match record.args with
  | [] => False
  | name :: rest =>
      (upper name = ascii "SET" ∧ 2 ≤ rest.length) ∨ upper name = ascii "MSET" ∨
        (upper name = ascii "DEL" ∧ 1 ≤ rest.length) ∨
        (upper name = ascii "CRDTDEL" ∧ 3 ≤ rest.length) ∨
        (upper name = ascii "CRDTMERGE" ∧ 4 ≤ rest.length ∧
          ∃ ts, parseU64 (rest[2]?.getD []) = some ts ∧
            Hlc.normalize ts = record.timestampMs ∧
            parseU64 (rest[3]?.getD []) = some record.nodeId ∧
            record.nodeId ≤ uint32Max)

end AofRecord

end SomniumDB
