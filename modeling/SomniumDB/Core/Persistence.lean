import SomniumDB.Core.Rooms

/-! # Persistence: replay, recovery and rewriting the log (`persistence.cpp`) -/

namespace SomniumDB

open Bytes FsUtil

/-! ## Replay -/

namespace Db

/-- `put` of `replay_record`: the resulting state, applied verbatim. -/
def replayPut (db : Db) (record : AofRecord) (key value : Bytes) (ts node : Nat) : Db :=
  let (ready, old) :=
    match (db.keysOf record.room).lookup key with
    | some found => (db, found)
    | none => (db.insert record.room key, {})
  let new : Record :=
    { value, expireAt := record.expireAt, timestampMs := Hlc.normalize ts, nodeId := node }
  let written := ready.assign record.room key old new
  { written with clock := Hlc.observe written.clock new.timestampMs }

/-- The `EXPIRE` family in old logs: only the deadline changes. -/
def replayDeadline (db : Db) (record : AofRecord) (key : Bytes) : Db :=
  match (db.keysOf record.room).lookup key with
  | none => db
  | some found =>
      db.assign record.room key found { found with expireAt := record.expireAt }

/-- A replayed delete erases the record and marks the key. -/
def replayDelete (db : Db) (record : AofRecord) (key : Bytes) : Db :=
  let version : Version := ⟨Hlc.normalize record.timestampMs, record.nodeId⟩
  let marked := (db.erase record.room key).setTomb record.room key version
  { marked with clock := Hlc.observe marked.clock version.ts }

/-- What `replay_record` does once the room is awake. -/
def replayCommand (db : Db) (record : AofRecord) (command : Bytes) : Db :=
  let args := record.args
  if command = ascii "CRDTMERGE" ∧ 5 ≤ args.length then
    -- old formats have no meta: the version of a merge comes from its arguments
    match parseU64 (args[3]?.getD []), parseU64 (args[4]?.getD []) with
    | some ts, some node =>
        if uint32Max < node then db
        else db.replayPut record (args[1]?.getD []) (args[2]?.getD []) ts node
    | _, _ => db
  else if command = ascii "SET" ∧ 3 ≤ args.length then
    db.replayPut record (args[1]?.getD []) (args[2]?.getD []) record.timestampMs
      record.nodeId
  else if command = ascii "MSET" then
    (pairsOf args.tail).foldl (fun state pair =>
      state.replayPut record pair.1 pair.2 record.timestampMs record.nodeId) db
  else if (command = ascii "EXPIRE" ∨ command = ascii "PEXPIRE" ∨
      command = ascii "PERSIST") ∧ 2 ≤ args.length then
    db.replayDeadline record (args[1]?.getD [])
  else if (command = ascii "DEL" ∧ 2 ≤ args.length) ∨
      (command = ascii "CRDTDEL" ∧ 4 ≤ args.length) then
    db.replayDelete record (args[1]?.getD [])
  else db

/-- `replay_record`: the room's snapshot is loaded under its first record. -/
def replayRecord (now : Nat) (db : Db) (record : AofRecord) : Db :=
  match record.args with
  | [] => db
  | name :: _ =>
      let awake := ((db.findRoom record.room).activate now record.room true).1
      awake.replayCommand record (upper name)

/-- The constructor of `Database`: the log is replayed over the snapshots, and
the history replayed is below the first frontier. -/
def recover (config : Config) (aof : List AofRecord)
    (snapshots : FiniteMap Bytes (FiniteMap Bytes Record)) (now : Nat) : Db :=
  let replayed := aof.foldl (replayRecord now) { config, aof, snapshots }
  let fresh := Hlc.next replayed.clock now 0
  { replayed with frontier := fresh, clock := fresh }

def fresh (config : Config) (now : Nat) : Db :=
  recover config [] ∅ now

/-! ## Dumping the state -/

/-- The record `emit` writes, unless it has expired. -/
def emit (now : Nat) (name key : Bytes) (record : Record) : List AofRecord :=
  if record.expired now then []
  else
    [{ room := name, args := [ascii "SET", key, record.value]
       expireAt := record.expireAt
       timestampMs := record.timestampMs
       nodeId := record.nodeId }]

def emitKeys (now : Nat) (name : Bytes) (keys : FiniteMap Bytes Record) :
    List AofRecord :=
  keys.toPairs.flatMap fun entry => emit now name entry.1 entry.2

def emitCold (now : Nat) (cold : NestedMap Bytes Bytes Record) : List AofRecord :=
  cold.toTriples.flatMap fun entry => emit now entry.1 entry.2.1 entry.2.2

def emitTombstones (tombstones : NestedMap Bytes Bytes Version) : List AofRecord :=
  tombstones.toTriples.map fun entry =>
    { room := entry.1, args := [ascii "DEL", entry.2.1]
      timestampMs := entry.2.2.ts
      nodeId := entry.2.2.node }

/-- `dump_state`: active rooms from RAM, sleeping ones from their snapshot,
cold storage, then the tombstones. -/
def dumpState (db : Db) (now : Nat) : List AofRecord :=
  (db.rooms.toPairs.flatMap fun entry =>
    emitKeys now entry.1
      (if entry.2.state = .sleeping then
        ((db.snapshots.lookup entry.1).map (·.mapValues Record.normalized)).getD ∅
      else entry.2.keys)) ++
    emitCold now db.cold ++ emitTombstones db.tombstones

/-! ## Rewriting in the background -/

def discardActiveSnapshots (db : Db) : Db :=
  { db with
    snapshots := db.snapshots.filter fun name _ =>
      decide ((db.room name).state = .sleeping) }

/-- `start_background_rewrite`: the child starts from the memory at the fork. -/
def startBackgroundRewrite (db : Db) : Db × Bytes :=
  match db.rewriteChild with
  | some _ => (db, ascii "-ERR AOF rewrite already in progress\r\n")
  | none =>
      ({ db.discardActiveSnapshots with
          rewriteFrom := db.aof.length
          rewriteChild := some
            { todo := db.rooms.toPairs
              cold := db.cold
              tombstones := db.tombstones } },
        ascii "+Background AOF rewrite started\r\n")

/-- `finish_background_rewrite`: once the child has ended well, its records and
the tail of the log since the fork replace the log. -/
def finishBackgroundRewrite (db : Db) : Db :=
  match db.rewriteChild with
  | none => db
  | some child =>
      if !child.finished then db
      else if child.failed then { db with rewriteChild := none }
      else
        { db with
          rewriteChild := none
          aof := child.written ++ db.aof.drop db.rewriteFrom }

/-- Size of a snapshot file: magic, version and count, then for each record
two lengths, the key, the value, the deadline, the timestamp and the node. -/
def snapshotSize (file : FiniteMap Bytes Record) : Nat :=
  16 + (file.toPairs.map fun entry =>
    36 + entry.1.length + entry.2.value.length).sum

/-- The child reads the snapshot of a room that was asleep at the fork, whose
size it has taken before. The parent may have replaced the file in between: a
shorter file cannot be read in full, and a longer one looks corrupt, so that it
is renamed aside. -/
def childReadSnapshot (db : Db) (child : RewriteChild) (now size : Nat) (name : Bytes)
    (rest : List (Bytes × Room)) : Db :=
  match db.snapshots.lookup name with
  | none => { db with rewriteChild := some { child with finished := true, failed := true } }
  | some file =>
      if snapshotSize file = size then
        { db with
          rewriteChild := some
            { child with
              todo := rest
              statSize := none
              written := child.written ++
                emitKeys now name (file.mapValues Record.normalized) } }
      else
        { db with
          snapshots :=
            if size < snapshotSize file then db.snapshots.erase name else db.snapshots
          rewriteChild := some { child with finished := true, failed := true } }

/-- One step of the child of a background rewrite, running `dump_state` without
locks. `now` is the clock when the step is taken. -/
def childStep (db : Db) (now : Nat) : Db :=
  match db.rewriteChild with
  | none => db
  | some child =>
      if child.finished then db
      else
        match child.now with
        | none => { db with rewriteChild := some { child with now := some now } }
        | some start =>
            match child.todo with
            | [] =>
                { db with
                  rewriteChild := some
                    { child with
                      finished := true
                      written := child.written ++ emitCold start child.cold ++
                        emitTombstones child.tombstones } }
            | (name, room) :: rest =>
                if room.state = .active then
                  { db with
                    rewriteChild := some
                      { child with
                        todo := rest
                        written := child.written ++ emitKeys start name room.keys } }
                else
                  match child.statSize with
                  | some size => db.childReadSnapshot child start size name rest
                  | none =>
                      match db.snapshots.lookup name with
                      | none =>
                          { db with rewriteChild := some { child with todo := rest } }
                      | some file =>
                          { db with
                            rewriteChild := some
                              { child with statSize := some (snapshotSize file) } }

def childFail (db : Db) : Db :=
  { db with
    rewriteChild := db.rewriteChild.map fun child =>
      { child with finished := true, failed := true } }

end Db

end SomniumDB
