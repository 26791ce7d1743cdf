import SomniumDB.Core.Persistence
import SomniumDB.Storage.SnapshotWriter

/-! # Snapshots between a node and the child of its rewrite

The child reads the snapshots of the rooms that were asleep at the fork, with the loader
that wakes a room and without a lock, while the node goes on waking and hibernating them.
Here each call on a snapshot file is a step of its own, and the steps of the two processes
come in any order. -/

namespace SomniumDB

open Bytes SnapshotManager

/-- `wakeup_room` between two of its calls. -/
inductive Loader
  | start
  | sized (size : Nat)
  | opened (size : Nat) (content : Bytes)
  /-- What was read does not decode: the file is to be renamed. -/
  | corrupt
  | ended (loaded : Option (FiniteMap Bytes Record))

namespace Loader

/-- The next call, on the file that has the name at that moment; `ok` when it succeeds. A
file that has been opened keeps its content whatever is renamed over it. -/
def step (loader : Loader) (file : Option Bytes) (ok : Bool) : Loader × Option Bytes :=
  match loader with
  | .start =>
      (if ok then (file.map fun data => Loader.sized data.length).getD (.ended none)
      else .ended none, file)
  | .sized size =>
      (if ok then (file.map fun data => Loader.opened size data).getD (.ended none)
      else .ended none, file)
  | .opened size content =>
      (if 0 < size ∧ (ok = false ∨ content.length < size) then .ended none
      else ((decode (content.take size)).map fun loaded => Loader.ended (some loaded)).getD
        .corrupt, file)
  | .corrupt => (.ended none, if ok then none else file)
  | .ended loaded => (.ended loaded, file)

/-- The calls that are left, unless the file turns out to be corrupt. -/
def left : Loader → Nat
  | .start => 3
  | .sized _ => 2
  | .opened _ _ => 1
  | .corrupt => 1
  | .ended _ => 0

end Loader

inductive RoomUse
  | asleep
  | waking (loader : Loader)
  | awake (keys : FiniteMap Bytes Record)

def RoomUse.keys : RoomUse → Option (FiniteMap Bytes Record)
  | .awake keys => some keys
  | _ => none

/-- A room and the file of its name. The last field is not in the source: the records of
the last snapshot that was written completely. -/
structure SharedRoom where
  file : Option Bytes := none
  use : RoomUse := .asleep
  kept : Option (FiniteMap Bytes Record) := none

/-- The child in `dump_state`: the rooms that were asleep at the fork and are still to be
read. The last field is not in the source: the node has hibernated the first of them since
the child took the size of its file. -/
structure SnapshotReader where
  todo : List Bytes
  /-- `has_snapshot` has found the file. -/
  seen : Bool := false
  loader : Loader := .start
  replaced : Bool := false

structure SharedSnapshots where
  rooms : FiniteMap Bytes SharedRoom
  child : SnapshotReader

inductive SharedStep
  /-- Commands give an awake room other records. -/
  | write (name : Bytes) (keys : FiniteMap Bytes Record)
  | wake (name : Bytes)
  /-- The next call of the node's own loader; `fits` when the memory budget admits what it
  has loaded. -/
  | wakeCall (name : Bytes) (ok fits : Bool)
  | hibernate (name : Bytes) (calls : SaveCalls)
  | childCall (ok : Bool)

namespace SharedSnapshots

def room (state : SharedSnapshots) (name : Bytes) : SharedRoom :=
  (state.rooms.lookup name).getD {}

def setRoom (state : SharedSnapshots) (name : Bytes) (room : SharedRoom) : SharedSnapshots :=
  { state with rooms := state.rooms.insert name room }

def woken (room : SharedRoom) (loader : Loader) (ok fits : Bool) : SharedRoom :=
  match loader.step room.file ok with
  | (.ended loaded, file) =>
      { room with file, use := if fits then .awake (loaded.getD ∅) else .asleep }
  | (next, file) => { room with file, use := .waking next }

/-- A call of the child on the snapshot of a room. A room without one is passed over, and
the dump ends where a snapshot cannot be loaded. -/
def childCall (state : SharedSnapshots) (ok : Bool) : SharedSnapshots :=
  match state.child.todo with
  | [] => state
  | name :: rest =>
      let room := state.room name
      if state.child.seen = false then
        if ok && room.file.isSome then { state with child := { state.child with seen := true } }
        else { state with child := { todo := rest } }
      else
        match state.child.loader.step room.file ok with
        | (.ended (some _), _) => { state with child := { todo := rest } }
        | (.ended none, file) => { state.setRoom name { room with file } with child := { todo := [] } }
        | (.sized size, _) =>
            { state with
              child := { state.child with loader := .sized size, replaced := false } }
        | (next, _) => { state with child := { state.child with loader := next } }

def step (state : SharedSnapshots) : SharedStep → SharedSnapshots
  | .write name keys =>
      match (state.room name).use with
      | .awake _ => state.setRoom name { state.room name with use := .awake keys }
      | _ => state
  | .wake name =>
      match (state.room name).use with
      | .asleep => state.setRoom name { state.room name with use := .waking .start }
      | _ => state
  | .wakeCall name ok fits =>
      match (state.room name).use with
      | .waking loader => state.setRoom name (woken (state.room name) loader ok fits)
      | _ => state
  | .hibernate name calls =>
      match (state.room name).use with
      | .awake keys =>
          match hibernateRoom { snapshot := (state.room name).file } keys calls with
          | (_, false) => state
          | (files, true) =>
              { state.setRoom name { file := files.snapshot, use := .asleep, kept := some keys } with
                child :=
                  { state.child with
                    replaced := state.child.replaced || state.child.todo.head? == some name } }
      | _ => state
  | .childCall ok => state.childCall ok

def run (state : SharedSnapshots) (steps : List SharedStep) : SharedSnapshots :=
  steps.foldl step state

end SharedSnapshots

end SomniumDB
