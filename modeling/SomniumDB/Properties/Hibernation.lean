import SomniumDB.Core.Persistence
import SomniumDB.Core.RoomFiles
import SomniumDB.Core.Runs

/-! # Hibernation is all or nothing

Whichever call on the files fails, either the room is in its snapshot and nowhere else, or
nothing has happened. -/

namespace SomniumDB

open Bytes SnapshotManager

namespace Db

variable (db : Db) (name : Bytes)

/-- The room has gone to its snapshot, with its place and its share of the counters. -/
structure PutToSleep (files : SnapshotFiles) (after : Db) : Prop where
  snapshot : files.snapshot = some (encode (db.room name).keys)
  keys : (after.room name).keys = ∅
  state : (after.room name).state = .sleeping
  bytes : (after.room name).bytes = (db.room name).bytes - (db.room name).keysCost
  activeRooms : after.activeRooms = db.activeRooms - 1
  keysInRam : after.metrics.keysInRam =
    db.metrics.keysInRam - (db.room name).keys.toPairs.length
  residentBytes : after.metrics.residentBytes = db.metrics.residentBytes - (db.room name).keysCost
  others : ∀ other, other ≠ name → after.room other = db.room other

/-- The rooms, the counters and the snapshot are what they were. -/
structure LeftAlone (files left : SnapshotFiles) (after : Db) : Prop where
  snapshot : left.snapshot = files.snapshot
  rooms : ∀ other, after.room other = db.room other
  activeRooms : after.activeRooms = db.activeRooms
  metrics : after.metrics = db.metrics

def AllOrNothing (files : SnapshotFiles) (outcome : Hibernation) : Prop :=
  (outcome.done = true ∧ db.PutToSleep name outcome.files outcome.db) ∨
    (outcome.done = false ∧ db.LeftAlone files outcome.files outcome.db)

theorem room_setRoom_self (db : Db) (name other : Bytes) :
    (db.setRoom name (db.room name)).room other = db.room other := by
  unfold setRoom room
  rw [FiniteMap.lookup_insert_if]
  by_cases same : other = name
  · rw [if_pos same]
    subst same
    rfl
  · rw [if_neg same]

/-- A room that is awake is hibernated as a whole or not at all; one that is asleep is left
as it is. -/
theorem hibernate_all_or_nothing (db : Db) (name : Bytes) (files : SnapshotFiles)
    (calls : SaveCalls) :
    ((db.room name).state = .active →
      db.AllOrNothing name files (db.hibernateFile name files calls)) ∧
    ((db.room name).state = .sleeping →
      db.hibernateFile name files calls = { db, files, done := true }) := by
  constructor
  · intro awake
    have notAsleep : (db.room name).state ≠ .sleeping := by
      rw [awake]
      exact fun same => by cases same
    have same : ({ db.room name with state := .active } : Room) = db.room name := by
      rw [← awake]
    unfold hibernateFile
    dsimp only
    rw [if_neg notAsleep]
    rcases hibernateRoom_cases files (db.room name).keys calls with saved | ⟨failed, kept⟩
    · left
      rw [saved]
      refine ⟨rfl, rfl, ?_, ?_, ?_, rfl, rfl, rfl, ?_⟩
      · simp [room]
      · simp [room]
      · simp [room]
      · intro other foreign
        unfold room
        dsimp only
        rw [FiniteMap.lookup_insert_if, if_neg foreign]
    · right
      rcases outcome : hibernateRoom files (db.room name).keys calls with ⟨left, done⟩
      rw [outcome] at failed kept
      subst failed
      refine ⟨rfl, kept, ?_, rfl, rfl⟩
      intro other
      change (db.setRoom name { db.room name with state := .active }).room other = _
      rw [same]
      exact room_setRoom_self db name other
  · intro asleep
    unfold hibernateFile
    dsimp only
    rw [if_pos asleep]

/-- A room whose disk is full stays awake with its key. -/
theorem hibernate_all_or_nothing_sample :
    let db := (fresh {} 0).run [clientCall 1 [ascii "ROOM", ascii "r"],
      clientCall 2 [ascii "SET", ascii "k", ascii "v"]]
    db.AllOrNothing (ascii "r") { snapshot := none }
      (db.hibernateFile (ascii "r") { snapshot := none } { writes := [.moved 5, .failed] }) :=
  (hibernate_all_or_nothing _ (ascii "r") { snapshot := none }
    { writes := [.moved 5, .failed] }).1 (by decide +kernel)

/-- A room that found no place among the active rooms is asleep, and hibernating it succeeds
without a snapshot. -/
theorem sleeping_room_without_snapshot :
    let db := (fresh {} 0).run [clientCall 1 [ascii "ROOM", ascii "a"],
      clientCall 2 [ascii "ROOM", ascii "b"], clientCall 3 [ascii "ROOM", ascii "c"],
      clientCall 4 [ascii "ROOM", ascii "d"]]
    let outcome := db.hibernateFile (ascii "d") { snapshot := none } {}
    ascii "d" ∈ db.rooms ∧ outcome.done = true ∧ outcome.files.snapshot = none ∧
      ¬ db.AllOrNothing (ascii "d") { snapshot := none } outcome := by
  intro db outcome
  have shown : ascii "d" ∈ db.rooms ∧ outcome.done = true ∧ outcome.files.snapshot = none := by
    decide +kernel
  rcases shown with ⟨registered, done, missing⟩
  refine ⟨registered, done, missing, ?_⟩
  rintro (⟨_, asleep⟩ | ⟨failed, _⟩)
  · have saved := asleep.snapshot
    rw [missing] at saved
    cases saved
  · rw [done] at failed
    cases failed

end Db

end SomniumDB
