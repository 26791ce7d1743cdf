import SomniumDB.Core.Database

/-! # Replicated writes and deletes (`crdt.cpp`) -/

namespace SomniumDB

open Bytes FsUtil

namespace Db

/-- `incoming_version`: strict parsing, the hybrid format, and a guard against
versions too far in the future; an admitted version is observed by the clock. -/
def incomingVersion (db : Db) (now : Nat) (tsArg nodeArg : Bytes) :
    Except Bytes (Db × Version) :=
  match parseU64 tsArg, parseU64 nodeArg with
  | some ts, some node =>
      if uint32Max < node then
        .error (ascii "-ERR invalid timestamp or node id\r\n")
      else
        let ts := Hlc.normalize ts
        if (now : Int) + db.config.maxClockOffsetMs < (Hlc.physicalMs ts : Int) then
          .error (ascii
            "-ERR timestamp too far in the future (SOMNIUM_MAX_CLOCK_OFFSET_MS)\r\n")
        else
          .ok ({ db with clock := Hlc.observe db.clock ts }, ⟨ts, node⟩)
  | _, _ => .error (ascii "-ERR invalid timestamp or node id\r\n")

def ignoredStale : Bytes := ascii "+OK (Ignored Stale Write)\r\n"

/-- The record a write goes to: the one found, or a new one, whose tombstone
is cleared. -/
def recordFor (db : Db) (name key : Bytes) (record : Option Record) : Db × Record :=
  match record with
  | some found => (db, found)
  | none => ((db.insert name key).clearTomb name key, {})

end Db

namespace Keyspace

variable {S : Type} [Keyspace S]

def deleteFrom (state : S) (now : Nat) (name key : Bytes) (args : List Bytes)
    (version : Version) : S × Bytes :=
  let (found, record) := lookup state now name key
  if (db found).stale name key record version then (found, Db.ignoredStale)
  else
    let erased := if record.isSome then (db found).erase name key else db found
    (withDb found ((erased.setTomb name key version).append
      { room := name, args, timestampMs := version.ts, nodeId := version.node }),
      ascii "+OK (Deleted)\r\n")

/-- `CRDTDEL key timestamp node`. -/
def handleCrdtdel (state : S) (now : Nat) (name : Bytes) (args : List Bytes) : S × Bytes :=
  match args with
  | [_, key, tsArg, nodeArg] =>
      match (db state).incomingVersion now tsArg nodeArg with
      | .error err => (state, err)
      | .ok (observed, version) =>
          deleteFrom (withDb state observed) now name key args version
  | _ => (state, ascii "-ERR Wrong number of arguments for CRDTDEL\r\n")

/-- The state change of an admitted merge, once the optional deadline has been
read. -/
def mergeInto (state : S) (now : Nat) (name key value : Bytes) (args : List Bytes)
    (expireAt : Option Int) (version : Version) : S × Bytes :=
  let (found, record) := lookup state now name key
  if (db found).stale name key record version then (found, Db.ignoredStale)
  else
    let (ready, old) := (db found).recordFor name key record
    let new : Record :=
      { value
        expireAt := expireAt.getD old.expireAt
        timestampMs := version.ts
        nodeId := version.node }
    (withDb found ((ready.assign name key old new).append
      { room := name, args
        expireAt := new.expireAt
        timestampMs := version.ts
        nodeId := version.node }),
      ascii "+OK (State Converged)\r\n")

/-- `CRDTMERGE key value timestamp node [expire_at]`. -/
def handleCrdtmerge (state : S) (now : Nat) (name : Bytes) (args : List Bytes) : S × Bytes :=
  match args with
  | [_, key, value, tsArg, nodeArg] =>
      match (db state).incomingVersion now tsArg nodeArg with
      | .error err => (state, err)
      | .ok (observed, version) =>
          mergeInto (withDb state observed) now name key value args none version
  | [_, key, value, tsArg, nodeArg, expireArg] =>
      match parseI64 expireArg with
      | none => (state, ascii "-ERR invalid expire time for CRDTMERGE\r\n")
      | some expireAt =>
          if expireAt < 0 then (state, ascii "-ERR invalid expire time for CRDTMERGE\r\n")
          else
            match (db state).incomingVersion now tsArg nodeArg with
            | .error err => (state, err)
            | .ok (observed, version) =>
                mergeInto (withDb state observed) now name key value args (some expireAt) version
  | _ => (state, ascii "-ERR Wrong number of arguments for CRDTMERGE\r\n")

end Keyspace

namespace Db

def deleteFrom (db : Db) (now : Nat) (name key : Bytes) (args : List Bytes)
    (version : Version) : Db × Bytes :=
  Keyspace.deleteFrom db now name key args version

def handleCrdtdel (db : Db) (now : Nat) (name : Bytes) (args : List Bytes) : Db × Bytes :=
  Keyspace.handleCrdtdel db now name args

def mergeInto (db : Db) (now : Nat) (name key value : Bytes) (args : List Bytes)
    (expireAt : Option Int) (version : Version) : Db × Bytes :=
  Keyspace.mergeInto db now name key value args expireAt version

def handleCrdtmerge (db : Db) (now : Nat) (name : Bytes) (args : List Bytes) : Db × Bytes :=
  Keyspace.handleCrdtmerge db now name args

/-- `REPLFRONTIER node frontier`: a peer's writes up to the frontier have been
delivered here. The local frontier moves to a fresh version. -/
def handleReplfrontier (db : Db) (now : Nat) (args : List Bytes) : Db × Bytes :=
  let usage := ascii "-ERR usage: REPLFRONTIER node frontier\r\n"
  match args with
  | [_, nodeArg, frontierArg] =>
      match parseU64 nodeArg, parseU64 frontierArg with
      | some node, some announced =>
          if uint32Max < node then (db, usage)
          else
            let known := max ((db.frontiers.lookup node).getD 0) announced
            let fresh := Hlc.next db.clock now 0
            ({ db with
                frontiers := db.frontiers.insert node known
                frontier := fresh
                clock := fresh }.collectTombstones, ascii "+OK\r\n")
      | _, _ => (db, usage)
  | _ => (db, usage)

end Db

end SomniumDB
