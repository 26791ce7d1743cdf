import SomniumDB.Core.PoolAllocator
import SomniumDB.Core.Record
import SomniumDB.Library.FiniteMap

/-! # Rooms of pointers

In RAM a room maps its keys to records of one pool that all rooms share. Here
are the functions that take records from the pool and give them back, as far as
the pointers are concerned. Nothing is returned where a pointer is followed
that does not lead to a record. -/

namespace SomniumDB

/-- `Room::keys` of every room, and the pool. -/
structure PointerRooms where
  pool : Pool Record := {}
  rooms : FiniteMap Bytes (FiniteMap Bytes Nat) := ∅

/-- The size of the blocks of `record_pool`. -/
def recordBlockSize : Nat := 1024

namespace PointerRooms

def keysOf (state : PointerRooms) (room : Bytes) : FiniteMap Bytes Nat :=
  (state.rooms.lookup room).getD ∅

/-- The pool has changed, and the pointers of one room. -/
def put (state : PointerRooms) (pool : Pool Record) (room : Bytes) (keys : FiniteMap Bytes Nat) :
    PointerRooms :=
  { pool, rooms := state.rooms.insert room keys }

/-- `insert`, and the end of `lookup` with a record from cold storage: `emplace`
does not replace a pointer. -/
def insert (state : PointerRooms) (room key : Bytes) (record : Record) : Option PointerRooms :=
  (state.pool.construct recordBlockSize record).map fun (pool, pointer) =>
    state.put pool room
      (if (state.keysOf room).lookup key = none then (state.keysOf room).insert key pointer
        else state.keysOf room)

/-- `set_value` and the assignments to the record that is found under a key. -/
def assign (state : PointerRooms) (room key : Bytes) (record : Record) : Option PointerRooms :=
  match (state.keysOf room).lookup key with
  | none => none
  | some pointer => (state.pool.write pointer record).map fun pool => { state with pool }

/-- `erase`, and the end of an eviction. -/
def erase (state : PointerRooms) (room key : Bytes) : Option PointerRooms :=
  match (state.keysOf room).lookup key with
  | none => none
  | some pointer =>
      (state.pool.destroy pointer).map fun pool =>
        state.put pool room ((state.keysOf room).erase key)

def destroyAll (pool : Pool Record) : List Nat → Option (Pool Record)
  | [] => some pool
  | pointer :: rest =>
      match pool.destroy pointer with
      | none => none
      | some next => destroyAll next rest

def pointers (keys : FiniteMap Bytes Nat) : List Nat :=
  keys.toPairs.map Prod.snd

/-- `destroy_all_records`, and the end of an `activate` without room in memory. -/
def clear (state : PointerRooms) (room : Bytes) : Option PointerRooms :=
  (destroyAll state.pool (pointers (state.keysOf room))).map fun pool =>
    state.put pool room ∅

/-- The loop of `wakeup_room` over the records of a snapshot file: a key that is
there again replaces the record loaded before. -/
def load (pool : Pool Record) (loaded : FiniteMap Bytes Nat) :
    List (Bytes × Record) → Option (Pool Record × FiniteMap Bytes Nat)
  | [] => some (pool, loaded)
  | (key, record) :: rest =>
      match pool.construct recordBlockSize record with
      | none => none
      | some (next, pointer) =>
          match loaded.lookup key with
          | none => load next (loaded.insert key pointer) rest
          | some old =>
              match next.destroy old with
              | none => none
              | some left => load left (loaded.insert key pointer) rest

/-- `wakeup_room`, given the records that can be read from the file and whether
these are all of them: a corrupt file leaves the room as it is. -/
def wakeupRoom (state : PointerRooms) (room : Bytes) (entries : List (Bytes × Record))
    (complete : Bool) : Option PointerRooms :=
  match load state.pool ∅ entries with
  | none => none
  | some (pool, loaded) =>
      if complete then
        (destroyAll pool (pointers (state.keysOf room))).map fun pool =>
          state.put pool room loaded
      else (destroyAll pool (pointers loaded)).map fun pool => { state with pool }

/-- `dump_state` for a sleeping room: its snapshot is loaded for the time of the
dump. -/
def dumpSleeping (state : PointerRooms) (entries : List (Bytes × Record)) :
    Option PointerRooms :=
  match load state.pool ∅ entries with
  | none => none
  | some (pool, loaded) =>
      (destroyAll pool (pointers loaded)).map fun pool => { state with pool }

end PointerRooms

end SomniumDB
