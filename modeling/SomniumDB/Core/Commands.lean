import SomniumDB.Core.Crdt

/-! # Commands on keys (`commands.cpp`)

Every handler runs with the client's room awake. Each takes the database, the
clock reading, the name of the room and the arguments, the command name
first, and returns the new state with the reply. How a key is looked up is left
open, since a read of cold storage may fail. -/

namespace SomniumDB

open Bytes FsUtil

/-- The absent value, which the two protocol versions write differently. -/
def nil (resp3 : Bool) : Bytes :=
  if resp3 then ascii "_\r\n" else ascii "$-1\r\n"

def integer (number : Int) : Bytes :=
  58 :: decimalInt number ++ Resp.crlf

def wrongArguments (command : Bytes) : Bytes :=
  ascii "-ERR Wrong number of arguments for " ++ command ++ Resp.crlf

namespace Db

/-! ## Options -/

structure SetOptions where
  nx : Bool := false
  xx : Bool := false
  /-- The absolute deadline; zero: persistent. -/
  expireAt : Int := 0

/-- The option loop of `SET`: at most one of `NX` and `XX`, and at most one
deadline, recognised by the deadline being still zero. -/
def setOptions (now : Nat) : SetOptions → List Bytes → Except Bytes SetOptions
  | options, [] => .ok options
  | options, option :: rest =>
      let opt := upper option
      if (opt = ascii "NX" ∨ opt = ascii "XX") ∧ !options.nx ∧ !options.xx then
        setOptions now
          { options with nx := opt = ascii "NX", xx := opt = ascii "XX" } rest
      else
        match rest with
        | [] => .error (ascii "-ERR syntax error\r\n")
        | amount :: others =>
            if (opt = ascii "EX" ∨ opt = ascii "PX") ∧ options.expireAt = 0 then
              let scale : Int := if opt = ascii "EX" then 1000 else 1
              let invalid := ascii "-ERR invalid expire time in 'set' command\r\n"
              match parseI64 amount with
              | none => .error invalid
              | some n =>
                  if n ≤ 0 ∨ (llongMax - now).tdiv scale < n then .error invalid
                  else
                    setOptions now { options with expireAt := now + n * scale } others
            else .error (ascii "-ERR syntax error\r\n")

/-- A local write of one key under the version `version`: the record found or
a new one receives the value, the deadline and the version. -/
def writeKey (db : Db) (name key value : Bytes) (expireAt : Int) (version : Nat)
    (record : Option Record) : Db :=
  let (ready, old) := db.recordFor name key record
  ready.assign name key old
    { value, expireAt, timestampMs := version, nodeId := db.config.nodeId }

/-- The key-value pairs of an argument list; a last key without a value is not
a pair. -/
def pairsOf : List Bytes → List (Bytes × Bytes)
  | key :: value :: rest => (key, value) :: pairsOf rest
  | _ => []

def maxReply : Nat := 32 * 1024 * 1024

structure ExpireOptions where
  nx : Bool := false
  xx : Bool := false
  gt : Bool := false
  lt : Bool := false

def expireOptions : ExpireOptions → List Bytes → Except Bytes ExpireOptions
  | options, [] => .ok options
  | options, option :: rest =>
      let opt := upper option
      if opt = ascii "NX" then expireOptions { options with nx := true } rest
      else if opt = ascii "XX" then expireOptions { options with xx := true } rest
      else if opt = ascii "GT" then expireOptions { options with gt := true } rest
      else if opt = ascii "LT" then expireOptions { options with lt := true } rest
      else .error (ascii "-ERR Unsupported option " ++ option ++ Resp.crlf)

/-- The deadline an `EXPIRE` asks for, with its argument; `PERSIST` (scale
zero) asks for none. -/
def expireDeadline (now : Nat) (scale : Int) (args : List Bytes) :
    Except Bytes (Int × Int) :=
  if scale = 0 then .ok (0, 0)
  else
    match parseI64 (args[2]?.getD []) with
    | none => .error (ascii "-ERR invalid expire time\r\n")
    | some n =>
        if n < llongMin.tdiv scale ∨ (llongMax - now).tdiv scale < n then
          .error (ascii "-ERR invalid expire time\r\n")
        else .ok (n, now + n * scale)

def expireRefused (options : ExpireOptions) (record : Record) (expireAt : Int) : Bool :=
  let hasTtl := record.expireAt ≠ 0
  (options.nx && hasTtl) || (options.xx && !hasTtl) ||
    (options.gt && (!hasTtl || expireAt ≤ record.expireAt)) ||
    (options.lt && hasTtl && record.expireAt ≤ expireAt)

end Db

namespace Keyspace

variable {S : Type} [Keyspace S]

def handleGet (state : S) (now : Nat) (resp3 : Bool) (name : Bytes) (args : List Bytes) :
    S × Bytes :=
  match args with
  | [_, key] =>
      let (found, record) := lookup state now name key
      (found, (record.map fun value => Resp.bulk value.value).getD (nil resp3))
  | _ => (state, wrongArguments (ascii "GET"))

/-- `SET key value [NX|XX] [EX seconds|PX milliseconds]`. -/
def handleSet (state : S) (now : Nat) (resp3 : Bool) (name : Bytes) (args : List Bytes) :
    S × Bytes :=
  match args with
  | _ :: key :: value :: options =>
      match Db.setOptions now {} options with
      | .error err => (state, err)
      | .ok options =>
          let (found, record) := lookup state now name key
          if (options.nx && record.isSome) || (options.xx && record.isNone) then
            (found, nil resp3)
          else
            let version := Hlc.next (db found).clock now
              ((record.map Record.timestampMs).getD ((db found).tombTs name key))
            let written := { db found with clock := version }.writeKey name key value
              options.expireAt version record
            (withDb found (written.append
              { room := name, args
                expireAt := options.expireAt
                timestampMs := version
                nodeId := (db state).config.nodeId }), ascii "+OK\r\n")
  | _ => (state, wrongArguments (ascii "SET"))

/-! ## MSET and MGET -/

/-- The first loop of `MSET`: the greatest timestamp it overwrites. -/
def overwritten (state : S) (now : Nat) (name : Bytes) :
    Nat → List (Bytes × Bytes) → S × Nat
  | greatest, [] => (state, greatest)
  | greatest, (key, _) :: rest =>
      let (found, record) := lookup state now name key
      overwritten found now name (max greatest
        ((record.map Record.timestampMs).getD ((db found).tombTs name key))) rest

/-- The second loop of `MSET`: every pair is written under one version. -/
def writePairs (state : S) (now : Nat) (name : Bytes) (version : Nat) :
    List (Bytes × Bytes) → S
  | [] => state
  | (key, value) :: rest =>
      let (found, record) := lookup state now name key
      writePairs (withDb found ((db found).writeKey name key value 0 version record)) now name
        version rest

/-- `MSET key value [key value ...]`: one record in the log. -/
def handleMset (state : S) (now : Nat) (name : Bytes) (args : List Bytes) : S × Bytes :=
  if args.length < 3 ∨ args.length % 2 = 0 then (state, wrongArguments (ascii "MSET"))
  else
    let pairs := Db.pairsOf args.tail
    let (found, greatest) := overwritten state now name 0 pairs
    let version := Hlc.next (db found).clock now greatest
    let written := writePairs (withDb found { db found with clock := version }) now name
      version pairs
    (withDb written ((db written).append
      { room := name, args, timestampMs := version, nodeId := (db state).config.nodeId }),
      ascii "+OK\r\n")

/-- The loop of `MGET`, with the reply built so far. -/
def mgetLoop (state : S) (now : Nat) (resp3 : Bool) (name : Bytes) :
    Bytes → List Bytes → S × Bytes
  | out, [] => (state, out)
  | out, key :: rest =>
      match lookup state now name key with
      | (found, none) => mgetLoop found now resp3 name (out ++ nil resp3) rest
      | (found, some record) =>
          if Db.maxReply < out.length + record.value.length then
            (found, ascii "-ERR reply too large\r\n")
          else mgetLoop found now resp3 name (out ++ Resp.bulk record.value) rest

def handleMget (state : S) (now : Nat) (resp3 : Bool) (name : Bytes) (args : List Bytes) :
    S × Bytes :=
  match args with
  | _ :: key :: rest =>
      mgetLoop state now resp3 name
        (42 :: decimal (rest.length + 1) ++ Resp.crlf) (key :: rest)
  | _ => (state, wrongArguments (ascii "MGET"))

def existsLoop (state : S) (now : Nat) (name : Bytes) : Nat → List Bytes → S × Nat
  | found, [] => (state, found)
  | found, key :: rest =>
      let (next, record) := lookup state now name key
      existsLoop next now name (found + if record.isSome then 1 else 0) rest

/-- `EXISTS key [key ...]`: a repeated key counts every time. -/
def handleExists (state : S) (now : Nat) (name : Bytes) (args : List Bytes) : S × Bytes :=
  match args with
  | _ :: key :: rest =>
      let (found, count) := existsLoop state now name 0 (key :: rest)
      (found, integer count)
  | _ => (state, wrongArguments (ascii "EXISTS"))

/-! ## DEL, EXPIRE and TTL -/

/-- The loop of `DEL`: one log record for each key removed. -/
def delLoop (state : S) (now : Nat) (name : Bytes) : Nat → List Bytes → S × Nat
  | deleted, [] => (state, deleted)
  | deleted, key :: rest =>
      match lookup state now name key with
      | (found, none) => delLoop found now name deleted rest
      | (found, some record) =>
          let version : Version :=
            ⟨Hlc.next (db found).clock now record.timestampMs, (db state).config.nodeId⟩
          let erased := { db found with clock := version.ts }.erase name key
          let marked := erased.setTomb name key version
          delLoop (withDb found (marked.append
            { room := name, args := [ascii "DEL", key]
              timestampMs := version.ts
              nodeId := version.node })) now name (deleted + 1) rest

def handleDel (state : S) (now : Nat) (name : Bytes) (args : List Bytes) : S × Bytes :=
  match args with
  | _ :: key :: rest =>
      let (removed, deleted) := delLoop state now name 0 (key :: rest)
      (removed, integer deleted)
  | _ => (state, wrongArguments (ascii "DEL"))

/-- `EXPIRE key seconds [NX|XX|GT|LT]` (scale 1000), `PEXPIRE` (scale 1) and
`PERSIST key` (scale 0). The change is logged as a versioned `SET` with the
whole resulting state. -/
def handleExpire (state : S) (now : Nat) (name : Bytes) (args : List Bytes) (scale : Int) :
    S × Bytes :=
  if (if scale ≠ 0 then args.length < 3 else args.length ≠ 2) then
    (state, wrongArguments (args.head?.getD []))
  else
    match Db.expireOptions {} (args.drop 3) with
    | .error err => (state, err)
    | .ok options =>
        if options.nx && (options.xx || options.gt || options.lt) then
          (state, ascii
            "-ERR NX and XX, GT or LT options at the same time are not compatible\r\n")
        else if options.gt && options.lt then
          (state, ascii "-ERR GT and LT options at the same time are not compatible\r\n")
        else
          match Db.expireDeadline now scale args with
          | .error err => (state, err)
          | .ok (n, expireAt) =>
              let key := args[1]?.getD []
              match lookup state now name key with
              | (found, none) => (found, integer 0)
              | (found, some record) =>
                  if (scale = 0 ∧ record.expireAt = 0) ∨
                      Db.expireRefused options record expireAt then
                    (found, integer 0)
                  else if scale ≠ 0 ∧ n ≤ 0 then
                    handleDel found now name [ascii "DEL", key]
                  else
                    let version := Hlc.next (db found).clock now record.timestampMs
                    let new : Record :=
                      { record with
                        expireAt, timestampMs := version
                        nodeId := (db state).config.nodeId }
                    (withDb found (({ db found with clock := version }.assign name key record
                      new).append
                        { room := name, args := [ascii "SET", key, record.value]
                          expireAt
                          timestampMs := version
                          nodeId := (db state).config.nodeId }), integer 1)

def handleTtl (state : S) (now : Nat) (name : Bytes) (args : List Bytes) (millis : Bool) :
    S × Bytes :=
  match args with
  | [_, key] =>
      match lookup state now name key with
      | (found, none) => (found, integer (-2))
      | (found, some record) =>
          if record.expireAt = 0 then (found, integer (-1))
          else
            let left := max 0 (record.expireAt - now)
            (found, integer (if millis then left else (left + 500) / 1000))
  | _ => (state, wrongArguments (args.head?.getD []))

end Keyspace

/-! ## Commands that find every key -/

namespace Db

def handleGet (db : Db) (now : Nat) (resp3 : Bool) (name : Bytes) (args : List Bytes) :
    Db × Bytes :=
  Keyspace.handleGet db now resp3 name args

def handleSet (db : Db) (now : Nat) (resp3 : Bool) (name : Bytes) (args : List Bytes) :
    Db × Bytes :=
  Keyspace.handleSet db now resp3 name args

def overwritten (db : Db) (now : Nat) (name : Bytes) (greatest : Nat)
    (pairs : List (Bytes × Bytes)) : Db × Nat :=
  Keyspace.overwritten db now name greatest pairs

def writePairs (db : Db) (now : Nat) (name : Bytes) (version : Nat)
    (pairs : List (Bytes × Bytes)) : Db :=
  Keyspace.writePairs db now name version pairs

def handleMset (db : Db) (now : Nat) (name : Bytes) (args : List Bytes) : Db × Bytes :=
  Keyspace.handleMset db now name args

def mgetLoop (db : Db) (now : Nat) (resp3 : Bool) (name out : Bytes) (keys : List Bytes) :
    Db × Bytes :=
  Keyspace.mgetLoop db now resp3 name out keys

def handleMget (db : Db) (now : Nat) (resp3 : Bool) (name : Bytes) (args : List Bytes) :
    Db × Bytes :=
  Keyspace.handleMget db now resp3 name args

def existsLoop (db : Db) (now : Nat) (name : Bytes) (found : Nat) (keys : List Bytes) :
    Db × Nat :=
  Keyspace.existsLoop db now name found keys

def handleExists (db : Db) (now : Nat) (name : Bytes) (args : List Bytes) : Db × Bytes :=
  Keyspace.handleExists db now name args

def delLoop (db : Db) (now : Nat) (name : Bytes) (deleted : Nat) (keys : List Bytes) :
    Db × Nat :=
  Keyspace.delLoop db now name deleted keys

def handleDel (db : Db) (now : Nat) (name : Bytes) (args : List Bytes) : Db × Bytes :=
  Keyspace.handleDel db now name args

def handleExpire (db : Db) (now : Nat) (name : Bytes) (args : List Bytes) (scale : Int) :
    Db × Bytes :=
  Keyspace.handleExpire db now name args scale

def handleTtl (db : Db) (now : Nat) (name : Bytes) (args : List Bytes) (millis : Bool) :
    Db × Bytes :=
  Keyspace.handleTtl db now name args millis

end Db

theorem Keyspace.ofDb :
    (∀ db : Db, Keyspace.db db = db) ∧
    (∀ db other : Db, Keyspace.withDb db other = other) ∧
    (∀ (db : Db) now name key, Keyspace.lookup db now name key = db.lookup now name key) ∧
    (∀ (db : Db) now name greatest pairs,
      Keyspace.overwritten db now name greatest pairs = db.overwritten now name greatest pairs) ∧
    (∀ (db : Db) now name version pairs,
      Keyspace.writePairs db now name version pairs = db.writePairs now name version pairs) ∧
    (∀ (db : Db) now resp3 name out keys,
      Keyspace.mgetLoop db now resp3 name out keys = db.mgetLoop now resp3 name out keys) ∧
    (∀ (db : Db) now name found keys,
      Keyspace.existsLoop db now name found keys = db.existsLoop now name found keys) ∧
    (∀ (db : Db) now name deleted keys,
      Keyspace.delLoop db now name deleted keys = db.delLoop now name deleted keys) ∧
    (∀ (db : Db) now name args,
      Keyspace.handleDel db now name args = db.handleDel now name args) ∧
    (∀ (db : Db) now name key args version,
      Keyspace.deleteFrom db now name key args version =
        db.deleteFrom now name key args version) ∧
    (∀ (db : Db) now name key value args expireAt version,
      Keyspace.mergeInto db now name key value args expireAt version =
        db.mergeInto now name key value args expireAt version) :=
  ⟨fun _ => rfl, fun _ _ => rfl, fun _ _ _ _ => rfl, fun _ _ _ _ _ => rfl,
    fun _ _ _ _ _ => rfl, fun _ _ _ _ _ _ => rfl, fun _ _ _ _ _ => rfl,
    fun _ _ _ _ _ => rfl, fun _ _ _ _ => rfl, fun _ _ _ _ _ _ => rfl,
    fun _ _ _ _ _ _ _ _ => rfl⟩

end SomniumDB
