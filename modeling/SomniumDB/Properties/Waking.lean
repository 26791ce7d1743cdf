import SomniumDB.Core.Persistence
import SomniumDB.Core.RoomFiles

/-! # Waking a room whose snapshot is valid

`activate` goes on after `wakeup_room` whatever it returns, so that a file that
cannot be examined, opened or read counts as no file: the room becomes active
and empty beside its snapshot. -/

namespace SomniumDB

open Bytes SnapshotManager

namespace Db

/-- Waking the room `name`, asleep in `db` with the valid file `data`, loads
its records, or is refused and changes neither its state nor the file. -/
def WakesSoundly (db : Db) (name data : Bytes) (records : FiniteMap Bytes Record)
    (outcome : Activated) : Prop :=
  (outcome.awake = true ∧ (outcome.db.room name).state = .active ∧
      outcome.db.keysOf name = records) ∨
    (outcome.awake = false ∧ (outcome.db.room name).state = .sleeping ∧
      outcome.db.activeRooms = db.activeRooms ∧ outcome.file = some data)

/-- Every call that `wakeup_room` makes to load a file succeeds. -/
def Readable (calls : FileCalls) : Prop :=
  calls.stat = true ∧ calls.opened = true ∧ calls.read = true

/-- The memory budget refuses the room with the records it has in RAM. -/
def RefusedEmpty (db : Db) (name : Bytes) (overBudget : Bool) : Prop :=
  overBudget = false ∧ db.fits (db.room name).keysCost = false

theorem decode_nil : decode [] = none := rfl

theorem wakeupRoom_readable {keys records : FiniteMap Bytes Record} {data : Bytes}
    {calls : FileCalls} (readable : Readable calls) (valid : decode data = some records) :
    SnapshotManager.wakeupRoom keys (some data) calls =
      { keys := records, file := some data, loaded := true } := by
  rcases readable with ⟨stat, opened, read⟩
  simp [SnapshotManager.wakeupRoom, stat, opened, read, valid]

theorem wakeupRoom_unreadable {keys records : FiniteMap Bytes Record} {data : Bytes}
    {calls : FileCalls} (unreadable : ¬ Readable calls) (valid : decode data = some records) :
    SnapshotManager.wakeupRoom keys (some data) calls =
      { keys, file := some data, loaded := false } := by
  have content : data ≠ [] := by
    rintro rfl
    rw [decode_nil] at valid
    cases valid
  have failed : (!calls.stat || !calls.opened || (decide (data ≠ []) && !calls.read)) = true := by
    unfold Readable at unreadable
    cases stat : calls.stat <;> cases opened : calls.opened <;> cases read : calls.read <;>
      simp_all
  rw [SnapshotManager.wakeupRoom, if_pos failed]

end Db

open Db

/-- A sleeping room with a valid snapshot wakes with its records, or stays
asleep with the file untouched, exactly when no slot is free, or the file can be
read, or the memory budget refuses the room even without the file, or the file
holds nothing but what is already in RAM. -/
theorem activate_loads_iff (db : Db) (now : Nat) (name : Bytes) (overBudget : Bool)
    (data : Bytes) (records : FiniteMap Bytes Record) (calls : FileCalls)
    (sleeping : (db.room name).state = .sleeping) (valid : decode data = some records) :
    db.WakesSoundly name data records
        (db.activateFile now name overBudget (some data) calls) ↔
      db.SlotsFull overBudget ∨ Readable calls ∨ db.RefusedEmpty name overBudget ∨
        db.keysOf name = records := by
  have inactive : ({ db.room name with lastAccessTime := now } : Room).state ≠ .active := by
    simp [sleeping]
  have touched : ((db.setRoom name { db.room name with lastAccessTime := now }).room name).state =
      .sleeping := by
    simp [setRoom, room] at sleeping ⊢
    exact sleeping
  unfold activateFile
  dsimp only
  rw [if_neg inactive]
  by_cases full : db.SlotsFull overBudget
  · rw [if_pos (by simpa [SlotsFull] using full)]
    exact ⟨fun _ => .inl full, fun _ => .inr ⟨rfl, touched, rfl, rfl⟩⟩
  · rw [if_neg (by simpa [SlotsFull] using full)]
    by_cases readable : Readable calls
    · rw [wakeupRoom_readable readable valid]
      refine ⟨fun _ => .inr (.inl readable), fun _ => ?_⟩
      dsimp only
      split_ifs
      · exact .inr ⟨rfl, by simpa [setRoom, room] using sleeping, rfl, rfl⟩
      · exact .inl ⟨rfl, by simp [room], by simp [keysOf, room]⟩
    · rw [wakeupRoom_unreadable readable valid]
      dsimp only
      have cost : Room.keysCost { db.room name with
          lastAccessTime := now, keys := (db.room name).keys } = (db.room name).keysCost := rfl
      rw [cost]
      split_ifs with refused
      · have empty : db.RefusedEmpty name overBudget := by
          simpa [RefusedEmpty] using refused
        exact ⟨fun _ => .inr (.inr (.inl empty)), fun _ =>
          .inr ⟨rfl, by simpa [setRoom, room] using sleeping, rfl, rfl⟩⟩
      · have admitted : ¬ db.RefusedEmpty name overBudget := by
          simpa [RefusedEmpty] using refused
        constructor
        · rintro (⟨_, _, loaded⟩ | ⟨asleep, _⟩)
          · exact .inr (.inr (.inr (by simpa [keysOf, room] using loaded)))
          · cases asleep
        · rintro (slots | read | empty | same)
          · exact absurd slots full
          · exact absurd read readable
          · exact absurd empty admitted
          · exact .inl ⟨rfl, by simp [room], by simpa [keysOf, room] using same⟩

/-- The records of a room with one key, and its file. -/
def savedRoom : FiniteMap Bytes Record :=
  AList.singleton (ascii "k") { value := ascii "v", timestampMs := 2 ^ 57 }

def savedFile : Bytes := encode savedRoom

theorem decode_savedFile : decode savedFile = some savedRoom := by
  have entries : (decode savedFile).map AList.entries = some savedRoom.entries := by
    decide +kernel
  rcases Option.map_eq_some_iff.mp entries with ⟨loaded, decoded, same⟩
  rw [decoded, AList.ext same]

theorem activate_loads_sample :
    (fresh {} 0).WakesSoundly (ascii "r") savedFile savedRoom
      ((fresh {} 0).activateFile 1 (ascii "r") false (some savedFile) {}) :=
  (activate_loads_iff (fresh {} 0) 1 (ascii "r") false savedFile savedRoom {}
    (by decide +kernel) decode_savedFile).mpr (.inr (.inl ⟨rfl, rfl, rfl⟩))

/-- Without a free descriptor the room wakes empty beside its valid snapshot. -/
theorem room_wakes_empty :
    let outcome := (fresh {} 0).activateFile 1 (ascii "r") false (some savedFile)
      { opened := false }
    decode savedFile = some savedRoom ∧ outcome.awake = true ∧
      (outcome.db.room (ascii "r")).state = .active ∧
      (outcome.db.keysOf (ascii "r")).entries = [] ∧ outcome.file = some savedFile ∧
      ¬ (fresh {} 0).WakesSoundly (ascii "r") savedFile savedRoom outcome := by
  intro outcome
  have woken : outcome.awake = true ∧ (outcome.db.room (ascii "r")).state = .active ∧
      (outcome.db.keysOf (ascii "r")).entries = [] ∧ outcome.file = some savedFile := by
    decide +kernel
  refine ⟨decode_savedFile, woken.1, woken.2.1, woken.2.2.1, woken.2.2.2, ?_⟩
  rintro (⟨_, _, loaded⟩ | ⟨asleep, _⟩)
  · have empty := woken.2.2.1
    rw [loaded] at empty
    cases empty
  · rw [woken.1] at asleep
    cases asleep

end SomniumDB
