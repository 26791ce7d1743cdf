import Mathlib.Algebra.BigOperators.Group.List.Basic
import SomniumDB.Storage.SnapshotWriter
import SomniumDB.Core.Rooms

/-! # Rooms and the bytes of their snapshot files

`activate` and `hibernate` once more, with the file that stands on disk and with the
outcome of each call on it. What `wakeup_room` returns is ignored, as in the source. -/

namespace SomniumDB

open Bytes SnapshotManager

namespace Db

/-- What `activate` leaves behind: the database, the file of the room, and
whether the room is awake. -/
structure Activated where
  db : Db
  file : Option Bytes
  awake : Bool

/-- `activate` of a room whose file on disk is `file`. -/
def activateFile (db : Db) (now : Nat) (name : Bytes) (overBudget : Bool)
    (file : Option Bytes) (calls : FileCalls) : Activated :=
  let room := { db.room name with lastAccessTime := now }
  let touched := db.setRoom name room
  if room.state = .active then { db := touched, file, awake := true }
  else if maxActiveRooms ≤ db.activeRooms ∧ !overBudget then
    { db := touched, file, awake := false }
  else
    let woken := SnapshotManager.wakeupRoom room.keys file calls
    let cost := Room.keysCost { room with keys := woken.keys }
    if !overBudget && !db.fits cost then
      { db := db.setRoom name { room with keys := ∅ }, file := woken.file, awake := false }
    else
      { db :=
          { db with
            rooms := db.rooms.insert name
              { room with keys := woken.keys, bytes := room.bytes + cost, state := .active }
            activeRooms := db.activeRooms + 1
            metrics := { db.metrics with
              keysInRam := db.metrics.keysInRam + woken.keys.toPairs.length
              residentBytes := db.metrics.residentBytes + cost } }
        file := woken.file
        awake := true }

variable {db : Db} {now : Nat} {name : Bytes} {overBudget : Bool}

/-- The budget of active rooms leaves no place for the room. -/
def SlotsFull (db : Db) (overBudget : Bool) : Prop :=
  maxActiveRooms ≤ db.activeRooms ∧ overBudget = false

theorem keysCost_perm {left right : Room} (perm : left.keys.entries.Perm right.keys.entries) :
    left.keysCost = right.keysCost := by
  unfold Room.keysCost FiniteMap.toPairs
  exact ((perm.map _).map _).sum_eq

/-- When every call succeeds and the file is the one that hibernation wrote,
the room wakes as it does in `Rooms`. -/
theorem activateFile_saved {file : FiniteMap Bytes Record}
    (saved : db.snapshots.lookup name = some file)
    (fits : ∀ key record, file.lookup key = some record → Fits key record)
    (few : file.toPairs.length < 2 ^ 64) :
    let outcome := db.activateFile now name overBudget (some (encode file)) {}
    outcome.awake = (db.activate now name overBudget).2 ∧
      outcome.file = some (encode file) ∧
      outcome.db.activeRooms = (db.activate now name overBudget).1.activeRooms ∧
      (outcome.db.room name).state = ((db.activate now name overBudget).1.room name).state ∧
      ∀ key, (outcome.db.keysOf name).lookup key =
        ((db.activate now name overBudget).1.keysOf name).lookup key := by
  rcases decode_encode fits few with ⟨loaded, decoded, perm⟩
  have woken : SnapshotManager.wakeupRoom (db.room name).keys (some (encode file)) {} =
      { keys := loaded, file := some (encode file), loaded := true } := by
    simp [SnapshotManager.wakeupRoom, decoded]
  have cost : Room.keysCost { db.room name with lastAccessTime := now, keys := loaded } =
      Room.keysCost { db.room name with
        lastAccessTime := now, keys := file.mapValues Record.normalized } :=
    keysCost_perm perm
  have lookups : ∀ key, loaded.lookup key = (file.mapValues Record.normalized).lookup key :=
    fun key => AList.perm_lookup perm
  unfold activateFile activate
  simp only [woken, Db.wakeupRoom, saved, cost]
  split_ifs
  · exact ⟨rfl, rfl, rfl, rfl, fun _ => rfl⟩
  · exact ⟨rfl, rfl, rfl, rfl, fun _ => rfl⟩
  · exact ⟨rfl, rfl, rfl, rfl, fun _ => rfl⟩
  · refine ⟨rfl, rfl, rfl, ?_, ?_⟩
    · simp [room]
    · intro key
      simpa [keysOf, room] using lookups key

/-! ## Hibernation -/

/-- What `hibernate` leaves behind, and what it returns. -/
structure Hibernation where
  db : Db
  files : SnapshotFiles
  done : Bool

/-- `hibernate` of a room with these files. -/
def hibernateFile (db : Db) (name : Bytes) (files : SnapshotFiles) (calls : SaveCalls) :
    Hibernation :=
  let room := db.room name
  if room.state = .sleeping then { db, files, done := true }
  else
    let resident := room.keys.toPairs.length
    let cost := room.keysCost
    match hibernateRoom files room.keys calls with
    | (files, false) =>
        { db := db.setRoom name { room with state := .active }, files, done := false }
    | (files, true) =>
        { db :=
            { db with
              snapshots := db.snapshots.insert name room.keys
              rooms := db.rooms.insert name
                { room with keys := ∅, bytes := room.bytes - cost, state := .sleeping }
              activeRooms := db.activeRooms - 1
              metrics := { db.metrics with
                keysInRam := db.metrics.keysInRam - resident
                residentBytes := db.metrics.residentBytes - cost } }
          files
          done := true }

/-- The state after `hibernate` is that of `Rooms`, by what the files have come to. -/
theorem hibernateFile_eq (db : Db) (name : Bytes) (files : SnapshotFiles) (calls : SaveCalls) :
    (db.hibernateFile name files calls).db =
      if (db.hibernateFile name files calls).done then db.hibernate name
      else db.hibernateFailed name := by
  unfold hibernateFile hibernate hibernateFailed
  dsimp only
  by_cases asleep : (db.room name).state = .sleeping
  · simp only [if_pos asleep, if_true]
  · simp only [if_neg asleep]
    rcases saved : hibernateRoom files (db.room name).keys calls with ⟨left, done⟩
    cases done <;> rfl

end Db

end SomniumDB
