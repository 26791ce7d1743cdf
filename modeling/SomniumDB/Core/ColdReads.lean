import SomniumDB.Core.Runs

/-! # Commands when cold storage fails (`eviction_manager.cpp`)

A failed `pread` in `take` reports the key as absent and leaves its entry in
the index; a `COMPACT` that fails anywhere keeps the old file and the old
index. A failed `pwrite` ends the eviction loop, as the end of the list of
victims does. -/

namespace SomniumDB

open Bytes FsUtil

/-- A database while a command runs. -/
structure Faulty where
  db : Db
  /-- The outcomes of the next reads of the cold file; all later ones succeed. -/
  reads : List Bool

namespace Faulty

/-- The key is in cold storage only, so that `take` reads the file. -/
def Cold (state : Faulty) (name key : Bytes) : Prop :=
  (state.db.keysOf name).lookup key = none ∧ (state.db.cold.find name key).isSome

instance (state : Faulty) (name key : Bytes) : Decidable (state.Cold name key) :=
  inferInstanceAs (Decidable (_ ∧ _))

def lookup (state : Faulty) (now : Nat) (name key : Bytes) : Faulty × Option Record :=
  let (found, record) := state.db.lookup now name key
  if state.Cold name key then
    if state.reads.headD true then ({ db := found, reads := state.reads.tail }, record)
    else ({ state with reads := state.reads.tail }, none)
  else ({ state with db := found }, record)

end Faulty

instance : Keyspace Faulty where
  db := Faulty.db
  withDb state db := { state with db }
  lookup := Faulty.lookup

/-- What goes wrong in cold storage while a command runs. -/
structure ColdFaults where
  /-- The outcomes of the reads in `take`; all later ones succeed. -/
  reads : List Bool := []
  /-- Every read, write and the renaming of a `COMPACT` succeed. -/
  compacts : Bool := true

namespace Db

def executeInRoomFaulty (db : Db) (call : Call) (faults : ColdFaults) (name : Bytes)
    (command : RoomCommand) : Db × Bytes :=
  db.executeInRoomWith (fun awake =>
      let handled := Keyspace.runInRoom ({ db := awake, reads := faults.reads } : Faulty)
        call.now call.resp3 name call.args command
      (handled.1.db, handled.2))
    call name

/-- The command itself: only those that run in a room look a key up. -/
def dispatchFaulty (db : Db) (call : Call) (faults : ColdFaults) (name : Bytes) :
    Db × Bytes :=
  let current := db.clientRoom call.clientFd
  let known := db.setClientRoom call.clientFd current
  if call.subscribed then db.dispatch call name
  else
    match Command.named name with
    | .inRoom kind => known.executeInRoomFaulty call faults current kind
    | .connection .compact =>
        if faults.compacts then db.dispatch call name
        else (known, ascii "-ERR compaction failed, previous cold file kept\r\n")
    | _ => db.dispatch call name

/-- `execute`, with faults of cold storage. -/
def executeFaulty (db : Db) (call : Call) (faults : ColdFaults) : Db × Bytes :=
  match call.args with
  | [] => (db, [])
  | first :: _ => (db.beginCommand call).dispatchFaulty call faults (upper first)

end Db

/-- An event of a node whose cold storage may fail. -/
structure FaultyEvent where
  event : Event
  faults : ColdFaults := {}

namespace Db

def stepFaulty (db : Db) (event : FaultyEvent) : Db :=
  match event.event with
  | .command call => (db.executeFaulty call event.faults).1
  | other => db.step other

def runFaulty (db : Db) (events : List FaultyEvent) : Db :=
  events.foldl stepFaulty db

@[simp] theorem runFaulty_nil (db : Db) : db.runFaulty [] = db := rfl

@[simp] theorem runFaulty_cons (db : Db) (event : FaultyEvent) (rest : List FaultyEvent) :
    db.runFaulty (event :: rest) = (db.stepFaulty event).runFaulty rest := rfl

theorem runFaulty_append (db : Db) (front back : List FaultyEvent) :
    db.runFaulty (front ++ back) = (db.runFaulty front).runFaulty back :=
  List.foldl_append

end Db

end SomniumDB
