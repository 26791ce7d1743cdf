import SomniumDB.Core.Commands

/-! # Rooms: registry, waking and hibernation (`rooms.cpp`), and eviction
(`eviction_manager.cpp`) -/

namespace SomniumDB

open Bytes

namespace Db

def maxActiveRooms : Nat := 3

def roomIdleMs : Nat := 10000

def roomsFull : Bytes :=
  ascii "-ERR ROOMS FULL: active room budget reached, ROOM.HIBERNATE one or wait\r\n"

def setRoom (db : Db) (name : Bytes) (room : Room) : Db :=
  { db with rooms := db.rooms.insert name room }

/-- `find_room` with `create`: an unknown room is registered, asleep. -/
def findRoom (db : Db) (name : Bytes) : Db :=
  if name ∈ db.rooms then db else db.setRoom name {}

/-- `fits`: the resident bytes and `extra` more stay within the budget. -/
def fits (db : Db) (extra : Int) : Bool :=
  decide (db.config.maxMemory = 0 ∨
    db.metrics.residentBytes + extra ≤ db.config.maxMemory)

/-- `wakeup_room`: the records of the snapshot file, or those in RAM when
there is no file. -/
def wakeupRoom (db : Db) (name : Bytes) : FiniteMap Bytes Record :=
  match db.snapshots.lookup name with
  | none => db.keysOf name
  | some file => file.mapValues Record.normalized

/-- `activate`: false when the budget of active rooms or of memory is full. -/
def activate (db : Db) (now : Nat) (name : Bytes) (overBudget : Bool) :
    Db × Bool :=
  let room := { db.room name with lastAccessTime := now }
  let touched := db.setRoom name room
  if room.state = .active then (touched, true)
  else if maxActiveRooms ≤ db.activeRooms ∧ !overBudget then (touched, false)
  else
    let keys := db.wakeupRoom name
    let cost := Room.keysCost { room with keys }
    if !overBudget && !db.fits cost then
      (db.setRoom name { room with keys := ∅ }, false)
    else
      ({ db with
          rooms := db.rooms.insert name
            { room with keys, bytes := room.bytes + cost, state := .active }
          activeRooms := db.activeRooms + 1
          metrics := { db.metrics with
            keysInRam := db.metrics.keysInRam + keys.toPairs.length
            residentBytes := db.metrics.residentBytes + cost } }, true)

/-- `hibernate`: the records of an active room move to its snapshot file. -/
def hibernate (db : Db) (name : Bytes) : Db :=
  let room := db.room name
  if room.state = .sleeping then db
  else
    { db with
      snapshots := db.snapshots.insert name room.keys
      rooms := db.rooms.insert name
        { room with keys := ∅, bytes := room.bytes - room.keysCost, state := .sleeping }
      activeRooms := db.activeRooms - 1
      metrics := { db.metrics with
        keysInRam := db.metrics.keysInRam - room.keys.toPairs.length
        residentBytes := db.metrics.residentBytes - room.keysCost } }

/-- `hibernate` when the snapshot cannot be written: the room stays active. -/
def hibernateFailed (db : Db) (name : Bytes) : Db :=
  let room := db.room name
  if room.state = .sleeping then db else db.setRoom name { room with state := .active }

/-! ## The states inside one operation

While `activate` and `hibernate` read and write files the room is `Loading` or
`Hibernating`, and its place among the active rooms is already taken or not yet given
back. -/

/-- `RoomState` of `room.h`. -/
inductive RoomPhase
  | sleeping
  | loading
  | active
  | hibernating
  deriving DecidableEq, Repr

/-- What the two functions assign of the room's state and of the node's counter. -/
structure Slot where
  phase : RoomPhase
  activeRooms : Nat
  deriving DecidableEq, Repr

namespace Slot

/-- `activate`, where `fits` says whether what was loaded is within the memory budget. -/
def activate (slot : Slot) (overBudget fits : Bool) : Slot × Bool :=
  if slot.phase = .active then (slot, true)
  else if maxActiveRooms ≤ slot.activeRooms ∧ !overBudget then (slot, false)
  else
    let loading : Slot := { phase := .loading, activeRooms := slot.activeRooms + 1 }
    if !overBudget && !fits then
      ({ phase := .sleeping, activeRooms := loading.activeRooms - 1 }, false)
    else ({ loading with phase := .active }, true)

/-- `hibernate`, where `saved` says whether the snapshot was written. -/
def hibernate (slot : Slot) (saved : Bool) : Slot × Bool :=
  if slot.phase = .sleeping then (slot, true)
  else
    let hibernating : Slot := { slot with phase := .hibernating }
    if !saved then ({ hibernating with phase := .active }, false)
    else ({ phase := .sleeping, activeRooms := hibernating.activeRooms - 1 }, true)

end Slot

def phaseOf : RoomState → RoomPhase
  | .sleeping => .sleeping
  | .active => .active

def slot (db : Db) (name : Bytes) : Slot :=
  { phase := phaseOf (db.room name).state, activeRooms := db.activeRooms }

def validRoomName (name : Bytes) : Bool :=
  decide (name ≠ [] ∧ name.length ≤ 200) && name.all fun byte => byte ≠ 47 && byte ≠ 0

/-- `wake_room`: none on success, else the error reply. -/
def wakeRoom (db : Db) (now : Nat) (name : Bytes) : Db × Option Bytes :=
  if !validRoomName name then (db, some (ascii "-ERR invalid room name\r\n"))
  else if name ∉ db.rooms ∧ db.config.maxRooms ≤ db.rooms.toPairs.length then
    (db, some (ascii "-ERR too many rooms\r\n"))
  else
    let (woken, awake) := (db.findRoom name).activate now name false
    (woken, if awake then none else some roomsFull)

def defaultRoom : Bytes := ascii "default"

def clientRoom (db : Db) (clientFd : Nat) : Bytes :=
  (db.clientRooms.lookup clientFd).getD defaultRoom

def setClientRoom (db : Db) (clientFd : Nat) (name : Bytes) : Db :=
  { db with clientRooms := db.clientRooms.insert clientFd name }

/-- `ROOM name`: wake the room, then select it for the client. -/
def handleRoom (db : Db) (now : Nat) (clientFd : Nat) (args : List Bytes) :
    Db × Bytes :=
  match args with
  | [_, name] =>
      match db.wakeRoom now name with
      | (woken, some err) => (woken, err)
      | (woken, none) => (woken.setClientRoom clientFd name, ascii "+OK\r\n")
  | _ => (db, wrongArguments (ascii "ROOM"))

def mapHeader (resp3 : Bool) (pairs : Nat) : Bytes :=
  if resp3 then 37 :: decimal pairs ++ Resp.crlf
  else 42 :: decimal (2 * pairs) ++ Resp.crlf

def roomStateName : RoomState → Bytes
  | .sleeping => ascii "sleeping"
  | .active => ascii "active"

/-- `ROOM.INFO`: the resident figures only of an active room. -/
def roomInfo (room : Room) (resp3 : Bool) : Bytes :=
  let awake := room.state = .active
  mapHeader resp3 4 ++ Resp.bulk (ascii "state") ++ Resp.bulk (roomStateName room.state) ++
    Resp.bulk (ascii "last_access_ms") ++ integer room.lastAccessTime ++
    Resp.bulk (ascii "keys") ++
      integer (if awake then (room.keys.toPairs.length : Int) else 0) ++
    Resp.bulk (ascii "bytes") ++ integer (if awake then room.bytes else 0)

/-- `ROOMS` and the family `ROOM.*`. -/
def handleRoomAdmin (db : Db) (now : Nat) (resp3 : Bool) (command : Bytes)
    (args : List Bytes) : Db × Bytes :=
  if command = ascii "ROOMS" then
    (db, 42 :: decimal db.rooms.toPairs.length ++ Resp.crlf ++
      db.rooms.toPairs.flatMap fun entry => Resp.bulk entry.1)
  else
    match args with
    | [_, name] =>
        if command = ascii "ROOM.WAKE" then
          let (woken, err) := db.wakeRoom now name
          (woken, err.getD (ascii "+OK\r\n"))
        else if name ∉ db.rooms then (db, ascii "-ERR no such room\r\n")
        else if command = ascii "ROOM.HIBERNATE" then
          if name = defaultRoom then (db, ascii "-ERR the default room is pinned\r\n")
          else (db.hibernate name, ascii "+OK\r\n")
        else if command = ascii "ROOM.INFO" then
          (db, roomInfo (db.room name) resp3)
        else (db, ascii "-ERR unknown command\r\n")
    | _ => (db, wrongArguments command)

/-- `hibernate_inactive_rooms`, for one of the rooms it considers. -/
def hibernateInactive (db : Db) (now : Nat) (name : Bytes) : Db :=
  let room := db.room name
  if room.state = .active ∧ name ≠ defaultRoom ∧
      room.lastAccessTime + roomIdleMs < now then db.hibernate name
  else db

/-- `clean_expired_keys`, for one room. -/
def cleanExpiredKeys (db : Db) (now : Nat) (name : Bytes) : Db :=
  if name ∉ db.rooms then db
  else
    let expired := (db.keysOf name).filter fun _ record => record.expired now
    db.putKeys name ((db.keysOf name).filter fun _ record => !record.expired now)
      (-(expired.toPairs.map fun entry => recordCost entry.1 entry.2).sum)
      (-expired.toPairs.length)

/-! ## Cold storage -/

/-- Bytes of a record in the cold file: deadline, timestamp, node and value. -/
def coldSize (record : Record) : Nat :=
  20 + record.value.length

/-- `evict_despised_keys`: `victims` are the keys that sampling picks, one for
each round; the loop ends when the room is within its limits. -/
def evictDespisedKeys (db : Db) (name : Bytes) : List Bytes → Db
  | [] => db
  | victim :: rest =>
      let keys := db.keysOf name
      if keys.entries = [] ∨
          (keys.toPairs.length ≤ db.config.maxKeys ∧ db.fits 0) then db
      else
        match keys.lookup victim with
        | none => db.evictDespisedKeys name rest
        | some record =>
            ({ db with
                cold := db.cold.set name victim record
                coldFileBytes := db.coldFileBytes + coldSize record }.putKeys name
              (keys.erase victim) (-recordCost victim record) (-1)).evictDespisedKeys
              name rest

/-- `compact`: the unexpired records are rewritten; the result is the number
of bytes reclaimed. -/
def compact (db : Db) (now : Nat) : Db × Nat :=
  let fresh := db.cold.filter fun _ _ record => !record.expired now
  let size := (fresh.toTriples.map fun entry => coldSize entry.2.2).sum
  ({ db with cold := fresh, coldFileBytes := size }, db.coldFileBytes - size)

end Db

end SomniumDB
