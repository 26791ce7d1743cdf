import SomniumDB.Core.Database
import SomniumDB.Library.Cursor
import SomniumDB.Library.Transfer

/-! # Cold storage (`eviction_manager.cpp`)

Evicted records lie one after another in a file, and an index in RAM tells where. The
outcome of each call on the file is given, and so is what is random: how the hash table
spreads the keys over its buckets, and which buckets are drawn. -/

namespace SomniumDB

open Bytes

structure ColdRef where
  off : Nat
  len : Nat
  deriving DecidableEq, Repr

/-- `cold.bin` and what is known of it. -/
structure EvictionManager where
  maxKeysPerRoom : Nat
  maxBytes : Nat
  /-- The file could be opened. -/
  opened : Bool := true
  file : Bytes := []
  fileBytes : Nat := 0
  obsoleteBytes : Nat := 0
  index : NestedMap Bytes Bytes ColdRef := ∅

namespace EvictionManager

/-! ## Records in the file -/

def kHeader : Nat := 20

def encode (record : Record) : Bytes :=
  littleEndian 8 (unsigned record.expireAt) ++ (littleEndian 8 record.timestampMs ++
    (littleEndian 4 record.nodeId ++ record.value))

/-- The record in these bytes, which hold at least its header. -/
def decode (raw : Bytes) : Record :=
  { value := raw.drop kHeader
    expireAt := signed (Cursor.value 8 (raw.take 8))
    timestampMs := Cursor.value 8 ((raw.drop 8).take 8)
    nodeId := Cursor.value 4 ((raw.drop 16).take 4) }

/-! ## Eviction -/

def fits (manager : EvictionManager) (metrics : Metrics) (extra : Int) : Bool :=
  decide (manager.maxBytes = 0 ∨ metrics.residentBytes + extra ≤ manager.maxBytes)

/-- How a hash table spreads its keys over buckets. -/
structure HashTable where
  buckets : List Bytes → List (List Bytes)
  spread : ∀ keys, (buckets keys).flatten.Perm keys

/-- What one round of the loop meets: the table, the numbers that are drawn, and the calls
of `pwrite`. -/
structure Round where
  table : HashTable
  draws : Nat → Nat
  writes : List Transfer := []

def sampleSize : Nat := 5

def extraSamples : Nat := 64

/-- From a bucket on, the first key of the first bucket that is not empty. -/
def probe (buckets : List (List Bytes)) : Nat → Nat → Option Bytes
  | 0, _ => none
  | tries + 1, bucket =>
      match (buckets[bucket]?).getD [] with
      | key :: _ => some key
      | [] => probe buckets tries ((bucket + 1) % buckets.length)

/-- The best candidate so far, its frequency, and the number of draws made. -/
structure Sampling where
  victim : Option Bytes := none
  lowest : Nat := 0xFFFF
  drawn : Nat := 0

def sample (frequency : Bytes → Nat) (round : Round) (buckets : List (List Bytes))
    (sampling : Sampling) : Sampling :=
  match probe buckets buckets.length (round.draws sampling.drawn % buckets.length) with
  | none => { sampling with drawn := sampling.drawn + 1 }
  | some candidate =>
      if sampling.victim = none ∨ frequency candidate < sampling.lowest then
        { victim := some candidate
          lowest := frequency candidate
          drawn := sampling.drawn + 1 }
      else { sampling with drawn := sampling.drawn + 1 }

def sampleMore (frequency : Bytes → Nat) (round : Round) (buckets : List (List Bytes)) :
    Nat → Sampling → Sampling
  | 0, sampling => sampling
  | left + 1, sampling =>
      if 2 < sampling.lowest then
        sampleMore frequency round buckets left (sample frequency round buckets sampling)
      else sampling

def pick (frequency : Bytes → Nat) (round : Round) (keys : List Bytes) : Option Bytes :=
  let buckets := round.table.buckets keys
  let sampled := (List.range sampleSize).foldl
    (fun sampling _ => sample frequency round buckets sampling) {}
  (if 10 < sampled.lowest then sampleMore frequency round buckets extraSamples sampled
  else sampled).victim

/-- Cold storage, a room and the global figures. The last field is not in the source: what
has been evicted, in order. -/
structure Evicting where
  manager : EvictionManager
  room : Room
  metrics : Metrics
  evicted : List (Bytes × Record) := []

/-- The end of a round: the victim goes to the end of the file; false when it could not be
written. -/
def evict (state : Evicting) (name : Bytes) (writes : List Transfer) (victim : Bytes)
    (record : Record) : Evicting × Bool :=
  let manager := state.manager
  let data := encode record
  if !manager.opened then (state, false)
  else
    let moved := Transfer.complete writes data
    let file := Transfer.writeAt manager.file manager.fileBytes moved.bytes
    if !moved.done then ({ state with manager := { manager with file } }, false)
    else
      ({ manager :=
          { manager with
            file
            index := manager.index.set name victim ⟨manager.fileBytes, data.length⟩
            fileBytes := manager.fileBytes + data.length }
         room :=
          { state.room with
            keys := state.room.keys.erase victim
            bytes := state.room.bytes - recordCost victim record }
         metrics :=
          { state.metrics with
            residentBytes := state.metrics.residentBytes - recordCost victim record
            keysInRam := state.metrics.keysInRam - 1 }
         evicted := state.evicted ++ [(victim, record)] }, true)

def overLimits (state : Evicting) : Bool :=
  decide (state.room.keys.entries ≠ []) &&
    (decide (state.manager.maxKeysPerRoom < state.room.keys.entries.length) ||
      !state.manager.fits state.metrics 0)

/-- `evict_despised_keys`, with whether all writes succeeded. It is watched for a number of
rounds: none when it has not ended. -/
def evictDespisedKeys (frequency : Bytes → Nat) (rounds : Nat → Round) (name : Bytes) :
    Nat → Nat → Evicting → Option (Evicting × Bool)
  | 0, _, _ => none
  | watched + 1, number, state =>
      if !overLimits state then some (state, true)
      else
        let round := rounds number
        match pick frequency round state.room.keys.keys with
        | none => none
        | some victim =>
            match state.room.keys.lookup victim with
            | none => none
            | some record =>
                match evict state name round.writes victim record with
                | (failed, false) => some (failed, false)
                | (evicted, true) =>
                    evictDespisedKeys frequency rounds name watched (number + 1) evicted

/-! ## Taking a key back -/

/-- `take`. A failed read leaves the entry in the index. -/
def take (manager : EvictionManager) (name key : Bytes) (calls : List Transfer) :
    EvictionManager × Option Record :=
  match manager.index.find name key with
  | none => (manager, none)
  | some ref =>
      match Transfer.pread manager.file calls ref.off ref.len with
      | none => (manager, none)
      | some raw =>
          ({ manager with
              index := manager.index.remove name key
              obsoleteBytes := manager.obsoleteBytes + ref.len }, some (decode raw))

/-! ## Compaction -/

/-- The calls on one record while the file is rewritten. -/
structure CopyCalls where
  reads : List Transfer := []
  writes : List Transfer := []

structure Rewritten where
  file : Bytes := []
  index : NestedMap Bytes Bytes ColdRef := ∅
  size : Nat := 0

/-- The loop of `compact`; none when a call fails. -/
def copyLoop (file : Bytes) (now : Nat) :
    List CopyCalls → Rewritten → List (Bytes × Bytes × ColdRef) → Option Rewritten
  | _, fresh, [] => some fresh
  | calls, fresh, (name, key, ref) :: rest =>
      let call := calls.headD {}
      match Transfer.pread file call.reads ref.off ref.len with
      | none => none
      | some raw =>
          if (decode raw).expired now then copyLoop file now calls.tail fresh rest
          else
            let moved := Transfer.complete call.writes raw
            if !moved.done then none
            else
              copyLoop file now calls.tail
                { file := fresh.file ++ moved.bytes
                  index := fresh.index.set name key ⟨fresh.size, ref.len⟩
                  size := fresh.size + ref.len } rest

/-- The outcomes of the calls of `compact`. -/
structure CompactCalls where
  opened : Bool := true
  copies : List CopyCalls := []
  renamed : Bool := true

/-- `compact`: the number of bytes that are given back, or -1. -/
def compact (manager : EvictionManager) (now : Nat) (calls : CompactCalls) :
    EvictionManager × Int :=
  if !calls.opened then (manager, -1)
  else
    match copyLoop manager.file now calls.copies {} manager.index.toTriples with
    | none => (manager, -1)
    | some fresh =>
        if !calls.renamed then (manager, -1)
        else
          ({ manager with
              opened := true
              file := fresh.file
              index := fresh.index
              fileBytes := fresh.size
              obsoleteBytes := 0 }, manager.fileBytes - fresh.size)

end EvictionManager

end SomniumDB
