import SomniumDB.Library.NestedMap
import SomniumDB.Core.Record
import SomniumDB.Storage.AofRecord

/-! # The state of a node (`database.h`, `room.h`) and access to its records

Rooms live in a registry and are either in RAM or asleep in a snapshot file;
evicted records live in cold storage. A command runs at one clock reading, and
every file operation succeeds. -/

namespace SomniumDB

open Bytes

structure Config where
  nodeId : Nat := 1
  peerCount : Nat := 0
  maxClockOffsetMs : Int := 600000
  maxRooms : Nat := 10000
  maxKeys : Nat := 1000000
  maxMemory : Nat := 0
  deriving DecidableEq, Repr

/-- Under the room's lock the state is one of these two; `Loading` and
`Hibernating` are only visible while the lock is held by the file operation. -/
inductive RoomState
  | sleeping
  | active
  deriving DecidableEq, Repr

structure Room where
  keys : FiniteMap Bytes Record := ∅
  state : RoomState := .sleeping
  lastAccessTime : Nat := 0
  bytes : Int := 0

/-- `sizeof(Record) + sizeof(std::string) + 2 * sizeof(void*)` on a 64-bit
platform. -/
def kRecordOverhead : Nat := 104

def recordCost (key : Bytes) (record : Record) : Int :=
  (key.length + record.value.length + kRecordOverhead : Nat)

def Room.keysCost (room : Room) : Int :=
  (room.keys.toPairs.map fun entry => recordCost entry.1 entry.2).sum

/-- The child of a background rewrite: the image of memory at the fork, the
rooms it has still to write, and what it has written. -/
structure RewriteChild where
  /-- The clock reading with which the child decides what has expired, taken
  when it starts writing. -/
  now : Option Nat := none
  todo : List (Bytes × Room)
  /-- The size that `stat` returned for the snapshot of the next room. -/
  statSize : Option Nat := none
  cold : NestedMap Bytes Bytes Record
  tombstones : NestedMap Bytes Bytes Version
  written : List AofRecord := []
  finished : Bool := false
  failed : Bool := false

structure Metrics where
  keysInRam : Int := 0
  residentBytes : Int := 0
  tombstones : Int := 0

structure Db where
  config : Config
  rooms : FiniteMap Bytes Room := ∅
  clientRooms : FiniteMap Nat Bytes := ∅
  activeRooms : Nat := 0
  metrics : Metrics := {}
  clock : Nat := 0
  tombstones : NestedMap Bytes Bytes Version := ∅
  frontiers : FiniteMap Nat Nat := ∅
  watermark : Nat := 0
  /-- The local frontier, read by the replicator. -/
  frontier : Nat := 0
  cold : NestedMap Bytes Bytes Record := ∅
  /-- Logical end of the cold file. -/
  coldFileBytes : Nat := 0
  /-- The snapshot files, by room name. -/
  snapshots : FiniteMap Bytes (FiniteMap Bytes Record) := ∅
  /-- The complete records of the append-only file. -/
  aof : List AofRecord := []
  rewriteChild : Option RewriteChild := none
  /-- Length of the append-only file at the fork. -/
  rewriteFrom : Nat := 0

namespace Db

def room (db : Db) (name : Bytes) : Room :=
  (db.rooms.lookup name).getD {}

def keysOf (db : Db) (name : Bytes) : FiniteMap Bytes Record :=
  (db.room name).keys

/-- Replace the records of a room in RAM, with the change of its estimated
size and of the number of resident keys. -/
def putKeys (db : Db) (name : Bytes) (keys : FiniteMap Bytes Record)
    (delta count : Int) : Db :=
  { db with
    rooms := db.rooms.insert name
      { db.room name with keys, bytes := (db.room name).bytes + delta }
    metrics := { db.metrics with
      residentBytes := db.metrics.residentBytes + delta
      keysInRam := db.metrics.keysInRam + count } }

/-- `insert`: an empty record, which the caller completes. -/
def insert (db : Db) (name key : Bytes) : Db :=
  db.putKeys name ((db.keysOf name).insert key {}) (recordCost key {}) 1

/-- `set_value` and the assignments that follow it, on the record `old` found
under `key`. -/
def assign (db : Db) (name key : Bytes) (old new : Record) : Db :=
  db.putKeys name ((db.keysOf name).insert key new)
    ((new.value.length : Int) - old.value.length) 0

def erase (db : Db) (name key : Bytes) : Db :=
  match (db.keysOf name).lookup key with
  | none => db
  | some record =>
      db.putKeys name ((db.keysOf name).erase key) (-recordCost key record) (-1)

/-- `lookup`: RAM first, then cold storage, from which the record is moved to
RAM; an expired record counts as absent and is dropped. -/
def lookup (db : Db) (now : Nat) (name key : Bytes) : Db × Option Record :=
  match (db.keysOf name).lookup key with
  | some record =>
      if record.expired now then (db.erase name key, none) else (db, some record)
  | none =>
      match db.cold.find name key with
      | none => (db, none)
      | some record =>
          let taken := { db with cold := db.cold.remove name key }
          if record.expired now then (taken, none)
          else
            (taken.putKeys name ((taken.keysOf name).insert key record)
              (recordCost key record) 1, some record)

def append (db : Db) (record : AofRecord) : Db :=
  { db with aof := db.aof ++ [record] }

/-! ## Tombstones (`crdt.cpp`) -/

def findTomb (db : Db) (name key : Bytes) : Option Version :=
  db.tombstones.find name key

def tombTs (db : Db) (name key : Bytes) : Nat :=
  ((db.findTomb name key).map Version.ts).getD 0

/-- `set_tomb`: nothing without peers or at or below the watermark, else the
greater of the stored and the new version. -/
def setTomb (db : Db) (name key : Bytes) (version : Version) : Db :=
  if db.config.peerCount = 0 ∨ version.ts ≤ db.watermark then db
  else
    match db.findTomb name key with
    | none =>
        { db with
          tombstones := db.tombstones.set name key version
          metrics := { db.metrics with tombstones := db.metrics.tombstones + 1 } }
    | some stored =>
        { db with tombstones := db.tombstones.set name key (max stored version) }

def clearTomb (db : Db) (name key : Bytes) : Db :=
  match db.findTomb name key with
  | none => db
  | some _ =>
      { db with
        tombstones := db.tombstones.remove name key
        metrics := { db.metrics with tombstones := db.metrics.tombstones - 1 } }

/-- The versions the peers announced, without the node's own entry. -/
def heardFrontiers (db : Db) : List Nat :=
  (db.frontiers.toPairs.filter fun entry => entry.1 ≠ db.config.nodeId).map Prod.snd

/-- `collect_tombstones`: the watermark is the least frontier once every peer
has been heard, and tombstones at or below it are forgotten. -/
def collectTombstones (db : Db) : Db :=
  let heard := db.heardFrontiers
  let low := heard.foldl min FsUtil.uint64Max
  if db.config.peerCount = 0 ∨ heard.length < db.config.peerCount ∨
      low ≤ db.watermark then db
  else
    let kept := db.tombstones.filter fun _ _ version => decide (low < version.ts)
    { db with
      watermark := low
      tombstones := kept
      metrics := { db.metrics with
        tombstones := db.metrics.tombstones -
          ((db.tombstones.toTriples.length : Int) - kept.toTriples.length) } }

/-- `stale`: an incoming version loses against the record, else against the
tombstone, else against the watermark. -/
def stale (db : Db) (name key : Bytes) (record : Option Record)
    (version : Version) : Bool :=
  match record with
  | some found => decide (version ≤ found.version)
  | none =>
      match db.findTomb name key with
      | some tomb => decide (version ≤ tomb)
      | none => decide (version.ts ≤ db.watermark)

end Db

/-- What the handlers of commands work on: a database, and the way in which they look keys
up in it. -/
class Keyspace (S : Type) where
  db : S → Db
  withDb : S → Db → S
  lookup : S → Nat → Bytes → Bytes → S × Option Record

instance : Keyspace Db where
  db db := db
  withDb _ db := db
  lookup := Db.lookup

end SomniumDB
