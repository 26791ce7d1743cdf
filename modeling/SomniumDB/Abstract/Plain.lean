import SomniumDB.Abstract.Dispatch

/-! # The commands on a plain store

What each command on keys means on the logical content of a node: one map from places
to records, without rooms that sleep, without cold storage and without sizes. The
handlers of the database compute the same replies and the same content. -/

namespace SomniumDB

open Bytes FsUtil

namespace Node

section Commands

variable (config : Config) (now : Nat) (resp3 : Bool) (name : Bytes)

/-- `GET`. -/
def plainGet (node : Node) (args : List Bytes) : Node × Bytes :=
  match args with
  | [_, key] =>
      let read := node.touch now (name, key)
      (read, ((read.held (name, key)).map fun record => Resp.bulk record.value).getD (nil resp3))
  | _ => (node, wrongArguments (ascii "GET"))

/-- `SET`. -/
def plainSet (node : Node) (args : List Bytes) : Node × Bytes :=
  match args with
  | _ :: key :: _ :: options =>
      match Db.setOptions now {} options with
      | .error err => (node, err)
      | .ok options =>
          let read := node.touch now (name, key)
          let record := read.held (name, key)
          if (options.nx && record.isSome) || (options.xx && record.isNone) then
            (read, nil resp3)
          else
            (read.commit config
              { room := name, args
                expireAt := options.expireAt
                timestampMs := Hlc.next read.clock now (read.overwritten (name, key))
                nodeId := config.nodeId }, ascii "+OK\r\n")
  | _ => (node, wrongArguments (ascii "SET"))

/-- The keys of an `MSET` are read, with the greatest timestamp that it overwrites. -/
def plainOverwritten (node : Node) : Nat → List (Bytes × Bytes) → Node × Nat
  | greatest, [] => (node, greatest)
  | greatest, (key, _) :: rest =>
      let read := node.touch now (name, key)
      read.plainOverwritten (max greatest (read.overwritten (name, key))) rest

/-- `MSET`. -/
def plainMset (node : Node) (args : List Bytes) : Node × Bytes :=
  if args.length < 3 ∨ args.length % 2 = 0 then (node, wrongArguments (ascii "MSET"))
  else
    let (read, greatest) := node.plainOverwritten now name 0 (Db.pairsOf args.tail)
    (read.commit config
      (Db.msetRecord name args (Hlc.next read.clock now greatest) config.nodeId), ascii "+OK\r\n")

def plainMgetLoop (node : Node) : Bytes → List Bytes → Node × Bytes
  | out, [] => (node, out)
  | out, key :: rest =>
      let read := node.touch now (name, key)
      match read.held (name, key) with
      | none => read.plainMgetLoop (out ++ nil resp3) rest
      | some record =>
          if Db.maxReply < out.length + record.value.length then
            (read, ascii "-ERR reply too large\r\n")
          else read.plainMgetLoop (out ++ Resp.bulk record.value) rest

/-- `MGET`. -/
def plainMget (node : Node) (args : List Bytes) : Node × Bytes :=
  match args with
  | _ :: key :: rest =>
      node.plainMgetLoop now resp3 name (42 :: decimal (rest.length + 1) ++ Resp.crlf)
        (key :: rest)
  | _ => (node, wrongArguments (ascii "MGET"))

def plainExistsLoop (node : Node) : Nat → List Bytes → Node × Nat
  | found, [] => (node, found)
  | found, key :: rest =>
      let read := node.touch now (name, key)
      read.plainExistsLoop (found + if (read.held (name, key)).isSome then 1 else 0) rest

/-- `EXISTS`. -/
def plainExists (node : Node) (args : List Bytes) : Node × Bytes :=
  match args with
  | _ :: key :: rest =>
      let (read, count) := node.plainExistsLoop now name 0 (key :: rest)
      (read, integer count)
  | _ => (node, wrongArguments (ascii "EXISTS"))

/-- The record that a `DEL` of one key logs. -/
def delRecord (key : Bytes) (version : Version) : AofRecord :=
  { room := name, args := [ascii "DEL", key], timestampMs := version.ts, nodeId := version.node }

def plainDelLoop (node : Node) : Nat → List Bytes → Node × Nat
  | deleted, [] => (node, deleted)
  | deleted, key :: rest =>
      let read := node.touch now (name, key)
      match read.held (name, key) with
      | none => read.plainDelLoop deleted rest
      | some record =>
          (read.commit config (delRecord name key
            ⟨Hlc.next read.clock now record.timestampMs, config.nodeId⟩)).plainDelLoop
            (deleted + 1) rest

/-- `DEL`. -/
def plainDel (node : Node) (args : List Bytes) : Node × Bytes :=
  match args with
  | _ :: key :: rest =>
      let (removed, deleted) := node.plainDelLoop config now name 0 (key :: rest)
      (removed, integer deleted)
  | _ => (node, wrongArguments (ascii "DEL"))

/-- The record that a change of a deadline logs: a `SET` with the whole state. -/
def expireRecord (key value : Bytes) (expireAt : Int) (version : Nat) : AofRecord :=
  { room := name, args := [ascii "SET", key, value], expireAt, timestampMs := version
    nodeId := config.nodeId }

/-- `EXPIRE` and its relatives, once the arguments have been read. -/
def plainDeadline (node : Node) (key : Bytes) (options : Db.ExpireOptions) (scale amount : Int)
    (expireAt : Int) : Node × Bytes :=
  let read := node.touch now (name, key)
  match read.held (name, key) with
  | none => (read, integer 0)
  | some record =>
      if (scale = 0 ∧ record.expireAt = 0) ∨ Db.expireRefused options record expireAt then
        (read, integer 0)
      else if scale ≠ 0 ∧ amount ≤ 0 then
        read.plainDel config now name [ascii "DEL", key]
      else
        (read.commit config (expireRecord config name key record.value expireAt
          (Hlc.next read.clock now record.timestampMs)), integer 1)

/-- `EXPIRE`, `PEXPIRE` and `PERSIST`. -/
def plainExpire (node : Node) (args : List Bytes) (scale : Int) : Node × Bytes :=
  if (if scale ≠ 0 then args.length < 3 else args.length ≠ 2) then
    (node, wrongArguments (args.head?.getD []))
  else
    match Db.expireOptions {} (args.drop 3) with
    | .error err => (node, err)
    | .ok options =>
        if options.nx && (options.xx || options.gt || options.lt) then
          (node, ascii
            "-ERR NX and XX, GT or LT options at the same time are not compatible\r\n")
        else if options.gt && options.lt then
          (node, ascii "-ERR GT and LT options at the same time are not compatible\r\n")
        else
          match Db.expireDeadline now scale args with
          | .error err => (node, err)
          | .ok (amount, expireAt) =>
              node.plainDeadline config now name (args[1]?.getD []) options scale amount expireAt

/-- `TTL` and `PTTL`. -/
def plainTtl (node : Node) (args : List Bytes) (millis : Bool) : Node × Bytes :=
  match args with
  | [_, key] =>
      let read := node.touch now (name, key)
      match read.held (name, key) with
      | none => (read, integer (-2))
      | some record =>
          if record.expireAt = 0 then (read, integer (-1))
          else
            let left := max 0 (record.expireAt - now)
            (read, integer (if millis then left else (left + 500) / 1000))
  | _ => (node, wrongArguments (args.head?.getD []))

/-- The version of a replicated command, or why it is not admitted. -/
def admitVersion (tsArg nodeArg : Bytes) : Except Bytes Version :=
  match parseU64 tsArg, parseU64 nodeArg with
  | some ts, some node =>
      if uint32Max < node then .error (ascii "-ERR invalid timestamp or node id\r\n")
      else
        let ts := Hlc.normalize ts
        if (now : Int) + config.maxClockOffsetMs < (Hlc.physicalMs ts : Int) then
          .error (ascii "-ERR timestamp too far in the future (SOMNIUM_MAX_CLOCK_OFFSET_MS)\r\n")
        else .ok ⟨ts, node⟩
  | _, _ => .error (ascii "-ERR invalid timestamp or node id\r\n")

/-- A merge of an admitted version. -/
def plainMerge (node : Node) (key : Bytes) (args : List Bytes) (expireAt : Option Int)
    (version : Version) : Node × Bytes :=
  let read := (node.observe version.ts).touch now (name, key)
  if read.stale (name, key) version then (read, Db.ignoredStale)
  else
    (read.commit config (Db.mergeRecord name args expireAt version (read.held (name, key))),
      ascii "+OK (State Converged)\r\n")

/-- `CRDTMERGE`. -/
def plainCrdtmerge (node : Node) (args : List Bytes) : Node × Bytes :=
  match args with
  | [_, key, _, tsArg, nodeArg] =>
      match admitVersion config now tsArg nodeArg with
      | .error err => (node, err)
      | .ok version => node.plainMerge config now name key args none version
  | [_, key, _, tsArg, nodeArg, expireArg] =>
      match parseI64 expireArg with
      | none => (node, ascii "-ERR invalid expire time for CRDTMERGE\r\n")
      | some expireAt =>
          if expireAt < 0 then (node, ascii "-ERR invalid expire time for CRDTMERGE\r\n")
          else
            match admitVersion config now tsArg nodeArg with
            | .error err => (node, err)
            | .ok version => node.plainMerge config now name key args (some expireAt) version
  | _ => (node, ascii "-ERR Wrong number of arguments for CRDTMERGE\r\n")

/-- `CRDTDEL`. -/
def plainCrdtdel (node : Node) (args : List Bytes) : Node × Bytes :=
  match args with
  | [_, key, tsArg, nodeArg] =>
      match admitVersion config now tsArg nodeArg with
      | .error err => (node, err)
      | .ok version =>
          let read := (node.observe version.ts).touch now (name, key)
          if read.stale (name, key) version then (read, Db.ignoredStale)
          else
            (read.commit config (Db.deleteRecord name args version), ascii "+OK (Deleted)\r\n")
  | _ => (node, ascii "-ERR Wrong number of arguments for CRDTDEL\r\n")

/-- The meaning of a command that runs in a room. -/
def plain (node : Node) (args : List Bytes) : RoomCommand → Node × Bytes
  | .get => node.plainGet now resp3 name args
  | .set => node.plainSet config now resp3 name args
  | .del => node.plainDel config now name args
  | .crdtmerge => node.plainCrdtmerge config now name args
  | .crdtdel => node.plainCrdtdel config now name args
  | .mget => node.plainMget now resp3 name args
  | .mset => node.plainMset config now name args
  | .exist => node.plainExists now name args
  | .expire => node.plainExpire config now name args 1000
  | .pexpire => node.plainExpire config now name args 1
  | .persist => node.plainExpire config now name args 0
  | .ttl => node.plainTtl now name args false
  | .pttl => node.plainTtl now name args true
  | .save => (node, ascii "+OK AOF is active and up to date\r\n")
  | .unknown => (node, ascii "-ERR unknown command\r\n")

end Commands

end Node

namespace Db

/-- A handler leaves the content and gives the reply of the plain store. -/
structure Means (db : Db) (outcome : Db × Bytes) (plain : Node × Bytes) : Prop where
  acts : Acts db outcome.1 plain.1
  reply : outcome.2 = plain.2

section Handlers

variable {db : Db} {name : Bytes} {now : Nat}

theorem Means.refl (wellFormed : db.WellFormed) (reply : Bytes) :
    Means db (db, reply) (db.node, reply) :=
  ⟨Acts.refl wellFormed, rfl⟩

theorem Means.after {first : Db} {node : Node} {outcome : Db × Bytes} {plain : Node × Bytes}
    (before : Acts db first node) (means : Means first outcome plain) :
    Means db outcome plain :=
  ⟨before.trans means.acts, means.reply⟩

/-- What a lookup leaves and finds is what the plain store has. -/
theorem lookup_plain (wellFormed : db.WellFormed) (awake : db.Awake name) (now : Nat)
    (key : Bytes) :
    ∃ found, db.lookup now name key = (found, (db.node.touch now (name, key)).held (name, key)) ∧
      Acts db found (db.node.touch now (name, key)) ∧
      Read now db found name key ((db.node.touch now (name, key)).held (name, key)) := by
  rcases lookup_spec wellFormed awake now key with ⟨acts, result, _⟩
  have read := read_lookup wellFormed awake now key
  refine ⟨(db.lookup now name key).1, ?_, acts, ?_⟩
  · rw [← result]
  · rw [← result]
    exact read

theorem means_handleGet (wellFormed : db.WellFormed) (awake : db.Awake name) (resp3 : Bool)
    (args : List Bytes) :
    Means db (db.handleGet now resp3 name args) (db.node.plainGet now resp3 name args) := by
  match args with
  | [_, key] =>
      rcases lookup_plain wellFormed awake now key with ⟨found, equal, acts, _⟩
      unfold handleGet Keyspace.handleGet Node.plainGet
      simp only [Keyspace.ofDb]
      rw [equal]
      exact ⟨acts, rfl⟩
  | [] => exact Means.refl wellFormed _
  | [_] => exact Means.refl wellFormed _
  | _ :: _ :: _ :: _ => exact Means.refl wellFormed _

theorem means_handleTtl (wellFormed : db.WellFormed) (awake : db.Awake name)
    (args : List Bytes) (millis : Bool) :
    Means db (db.handleTtl now name args millis) (db.node.plainTtl now name args millis) := by
  match args with
  | [_, key] =>
      rcases lookup_plain wellFormed awake now key with ⟨found, equal, acts, _⟩
      unfold handleTtl Keyspace.handleTtl Node.plainTtl
      simp only [Keyspace.ofDb]
      rw [equal]
      cases (db.node.touch now (name, key)).held (name, key) with
      | none => exact ⟨acts, rfl⟩
      | some record =>
          dsimp only
          by_cases same : record.expireAt = 0
          · simp only [if_pos same]
            exact ⟨acts, rfl⟩
          · simp only [if_neg same]
            exact ⟨acts, rfl⟩
  | [] => exact Means.refl wellFormed _
  | [_] => exact Means.refl wellFormed _
  | _ :: _ :: _ :: _ => exact Means.refl wellFormed _

theorem means_mgetLoop (wellFormed : db.WellFormed) (awake : db.Awake name) (resp3 : Bool)
    (out : Bytes) (keys : List Bytes) :
    Means db (db.mgetLoop now resp3 name out keys)
      (db.node.plainMgetLoop now resp3 name out keys) := by
  induction keys generalizing db out with
  | nil => exact Means.refl wellFormed out
  | cons key rest induction =>
      rcases lookup_plain wellFormed awake now key with ⟨found, equal, acts, _⟩
      unfold mgetLoop Keyspace.mgetLoop Node.plainMgetLoop
      simp only [Keyspace.ofDb]
      rw [equal]
      cases (db.node.touch now (name, key)).held (name, key) with
      | none =>
          have later := induction acts.wellFormed (acts.frame.awake awake) (out ++ nil resp3)
          rw [acts.node] at later
          exact Means.after acts later
      | some record =>
          dsimp only
          by_cases long : maxReply < out.length + record.value.length
          · simp only [if_pos long]
            exact ⟨acts, rfl⟩
          · simp only [if_neg long]
            have later := induction acts.wellFormed (acts.frame.awake awake)
              (out ++ Resp.bulk record.value)
            rw [acts.node] at later
            exact Means.after acts later

theorem means_handleMget (wellFormed : db.WellFormed) (awake : db.Awake name) (resp3 : Bool)
    (args : List Bytes) :
    Means db (db.handleMget now resp3 name args) (db.node.plainMget now resp3 name args) := by
  match args with
  | _ :: key :: rest => exact means_mgetLoop wellFormed awake resp3 _ (key :: rest)
  | [] => exact Means.refl wellFormed _
  | [_] => exact Means.refl wellFormed _

theorem acts_existsLoop (wellFormed : db.WellFormed) (awake : db.Awake name) (now count : Nat)
    (keys : List Bytes) :
    Acts db (db.existsLoop now name count keys).1
        (db.node.plainExistsLoop now name count keys).1 ∧
      (db.existsLoop now name count keys).2 =
        (db.node.plainExistsLoop now name count keys).2 := by
  induction keys generalizing db count with
  | nil => exact ⟨Acts.refl wellFormed, rfl⟩
  | cons key rest induction =>
      rcases lookup_plain wellFormed awake now key with ⟨found, equal, acts, _⟩
      unfold existsLoop Keyspace.existsLoop Node.plainExistsLoop
      simp only [Keyspace.ofDb]
      rw [equal]
      have later := induction acts.wellFormed (acts.frame.awake awake)
        (count + if ((db.node.touch now (name, key)).held (name, key)).isSome then 1 else 0)
      rw [acts.node] at later
      exact ⟨acts.trans later.1, later.2⟩

theorem means_handleExists (wellFormed : db.WellFormed) (awake : db.Awake name)
    (args : List Bytes) :
    Means db (db.handleExists now name args) (db.node.plainExists now name args) := by
  match args with
  | _ :: key :: rest =>
      rcases acts_existsLoop wellFormed awake now 0 (key :: rest) with ⟨acts, count⟩
      exact ⟨acts, congrArg (fun count : Nat => integer count) count⟩
  | [] => exact Means.refl wellFormed _
  | [_] => exact Means.refl wellFormed _

/-! ## Writers -/

/-- A write or delete of one key that was just read is committed. -/
theorem acts_single {mid : Db} {record : AofRecord} {change : Change} {clock : Nat}
    (single : record.changes = [change]) (clockEq : clock = record.timestampMs)
    (fresh : db.clock < record.timestampMs)
    (acts : Acts { db with clock } mid ({ db with clock }.node.apply db.config change)) :
    Acts db (mid.append record) (db.node.commit db.config record) := by
  subst clockEq
  apply acts_commit_fresh fresh
  rw [single]
  exact acts

theorem means_handleSet (wellFormed : db.WellFormed) (awake : db.Awake name)
    (resp3 : Bool) {args : List Bytes} {first : Bytes} (head : args.head? = some first)
    (command : upper first = ascii "SET") :
    Means db (db.handleSet now resp3 name args)
      (db.node.plainSet db.config now resp3 name args) := by
  match args, head with
  | [_], _ => exact Means.refl wellFormed _
  | [_, _], _ => exact Means.refl wellFormed _
  | named :: key :: value :: options, head =>
      obtain rfl : named = first := by simpa using head
      unfold handleSet Keyspace.handleSet Node.plainSet
      simp only [Keyspace.ofDb]
      cases setOptions now {} options with
      | error err => exact Means.refl wellFormed err
      | ok options =>
          rcases lookup_plain wellFormed awake now key with ⟨found, equal, acts, read⟩
          dsimp only
          rw [equal]
          dsimp only
          by_cases refused : (options.nx &&
              ((Node.touch now db.node (name, key)).held (name, key)).isSome || options.xx &&
              ((Node.touch now db.node (name, key)).held (name, key)).isNone) = true
          · simp only [if_pos refused]
            exact ⟨acts, rfl⟩
          · simp only [if_neg refused]
            refine Means.after acts ⟨?_, rfl⟩
            have version : Hlc.next found.clock now
                ((((db.node.touch now (name, key)).held (name, key)).map
                  Record.timestampMs).getD (found.tombTs name key)) =
                Hlc.next (db.node.touch now (name, key)).clock now
                  ((db.node.touch now (name, key)).overwritten (name, key)) := by
              rw [← acts.node]
              rfl
            rw [version, ← acts.node, ← acts.frame.config]
            rw [← acts.node] at read
            refine acts_single (changes_set rfl command) rfl (Hlc.last_lt_next _ _ _) ?_
            exact acts_writeKey acts.wellFormed read.awake read.found rfl value options.expireAt
              _ _

theorem acts_delOne {found : Db} {key : Bytes} {record : Record}
    (read : Read now db found name key (some record)) (wellFormed : found.WellFormed) :
    Acts found
      ((({ found with
          clock := Hlc.next found.clock now record.timestampMs }.erase name key).setTomb
        name key ⟨Hlc.next found.clock now record.timestampMs, found.config.nodeId⟩).append
        { room := name, args := [ascii "DEL", key]
          timestampMs := Hlc.next found.clock now record.timestampMs
          nodeId := found.config.nodeId })
      (found.node.commit found.config (Node.delRecord name key
        ⟨Hlc.next found.node.clock now record.timestampMs, found.config.nodeId⟩)) := by
  refine acts_single (changes_del rfl) rfl (Hlc.last_lt_next _ _ _) ?_
  exact acts_delete wellFormed read.awake read.found.cold _ _

theorem acts_delLoop (wellFormed : db.WellFormed) (awake : db.Awake name) (now deleted : Nat)
    (keys : List Bytes) :
    Acts db (db.delLoop now name deleted keys).1
        (db.node.plainDelLoop db.config now name deleted keys).1 ∧
      (db.delLoop now name deleted keys).2 =
        (db.node.plainDelLoop db.config now name deleted keys).2 := by
  induction keys generalizing db deleted with
  | nil => exact ⟨Acts.refl wellFormed, rfl⟩
  | cons key rest induction =>
      rcases lookup_plain wellFormed awake now key with ⟨found, equal, acts, read⟩
      unfold delLoop Keyspace.delLoop Node.plainDelLoop
      simp only [Keyspace.ofDb]
      rw [equal]
      cases held : (db.node.touch now (name, key)).held (name, key) with
      | none =>
          have later := induction acts.wellFormed (acts.frame.awake awake) deleted
          rw [acts.node, acts.frame.config] at later
          exact ⟨acts.trans later.1, later.2⟩
      | some record =>
          rw [held] at read
          have removed := acts_delOne read acts.wellFormed
          have later := induction removed.wellFormed (removed.frame.awake read.awake) (deleted + 1)
          rw [removed.node, removed.frame.config] at later
          rw [← acts.frame.config, ← acts.node]
          exact ⟨acts.trans (removed.trans later.1), later.2⟩

theorem means_handleDel (wellFormed : db.WellFormed) (awake : db.Awake name) (now : Nat)
    (args : List Bytes) :
    Means db (db.handleDel now name args) (db.node.plainDel db.config now name args) := by
  match args with
  | _ :: key :: rest =>
      rcases acts_delLoop wellFormed awake now 0 (key :: rest) with ⟨acts, count⟩
      exact ⟨acts, congrArg (fun count : Nat => integer count) count⟩
  | [] => exact Means.refl wellFormed _
  | [_] => exact Means.refl wellFormed _

theorem means_handleExpire (wellFormed : db.WellFormed) (awake : db.Awake name)
    (args : List Bytes) (scale : Int) :
    Means db (db.handleExpire now name args scale)
      (db.node.plainExpire db.config now name args scale) := by
  have upperSet : upper (ascii "SET") = ascii "SET" := by decide
  unfold handleExpire Keyspace.handleExpire Node.plainExpire
  simp only [Keyspace.ofDb]
  by_cases shape : (if scale ≠ 0 then args.length < 3 else args.length ≠ 2)
  · rw [if_pos shape, if_pos shape]
    exact Means.refl wellFormed _
  rw [if_neg shape, if_neg shape]
  cases expireOptions {} (args.drop 3) with
  | error err => exact Means.refl wellFormed err
  | ok options =>
      dsimp only
      split
      · exact Means.refl wellFormed _
      split
      · exact Means.refl wellFormed _
      cases expireDeadline now scale args with
      | error err => exact Means.refl wellFormed err
      | ok asked =>
          rcases asked with ⟨amount, expireAt⟩
          dsimp only
          generalize args[1]?.getD [] = key
          rcases lookup_plain wellFormed awake now key with ⟨found, equal, acts, read⟩
          unfold Node.plainDeadline
          rw [equal]
          dsimp only
          cases held : (db.node.touch now (name, key)).held (name, key) with
          | none => exact ⟨acts, rfl⟩
          | some record =>
              rw [held] at read
              dsimp only
              split
              · exact ⟨acts, rfl⟩
              by_cases spent : scale ≠ 0 ∧ amount ≤ 0
              · simp only [if_pos spent]
                have deleted := means_handleDel acts.wellFormed read.awake now
                  [ascii "DEL", key]
                rw [acts.node, acts.frame.config] at deleted
                exact Means.after acts deleted
              · simp only [if_neg spent]
                refine Means.after acts ⟨?_, rfl⟩
                rw [← acts.node, ← acts.frame.config]
                refine acts_single (changes_set rfl upperSet) rfl (Hlc.last_lt_next _ _ _) ?_
                exact acts_assign acts.wellFormed read.awake read.found read.held _ _

/-- The first loop of `MSET` finds what the plain store overwrites. -/
theorem overwritten_plain (wellFormed : db.WellFormed) (awake : db.Awake name)
    (now greatest : Nat) (pairs : List (Bytes × Bytes)) :
    Acts db (db.overwritten now name greatest pairs).1
        (db.node.plainOverwritten now name greatest pairs).1 ∧
      (db.overwritten now name greatest pairs).2 =
        (db.node.plainOverwritten now name greatest pairs).2 := by
  induction pairs generalizing db greatest with
  | nil => exact ⟨Acts.refl wellFormed, rfl⟩
  | cons pair rest induction =>
      rcases pair with ⟨key, value⟩
      rcases lookup_plain wellFormed awake now key with ⟨found, equal, acts, _⟩
      unfold overwritten Keyspace.overwritten Node.plainOverwritten
      simp only [Keyspace.ofDb]
      rw [equal]
      dsimp only
      have bound : (((db.node.touch now (name, key)).held (name, key)).map
          Record.timestampMs).getD (found.tombTs name key) =
          (db.node.touch now (name, key)).overwritten (name, key) := by
        rw [← acts.node]
        rfl
      rw [bound]
      have later := induction acts.wellFormed (acts.frame.awake awake)
        (max greatest ((db.node.touch now (name, key)).overwritten (name, key)))
      rw [acts.node] at later
      exact ⟨acts.trans later.1, later.2⟩

theorem plainOverwritten_touchAll (node : Node) (now greatest : Nat) (name : Bytes)
    (pairs : List (Bytes × Bytes)) :
    (node.plainOverwritten now name greatest pairs).1 =
      node.touchAll now (pairs.map fun pair => (name, pair.1)) := by
  induction pairs generalizing node greatest with
  | nil => rfl
  | cons pair rest induction => exact induction _ _

theorem means_handleMset (wellFormed : db.WellFormed) (awake : db.Awake name)
    {args : List Bytes} {first : Bytes} (head : args.head? = some first)
    (command : upper first = ascii "MSET") :
    Means db (db.handleMset now name args) (db.node.plainMset db.config now name args) := by
  obtain ⟨rest, rfl⟩ : ∃ rest, args = first :: rest := List.head?_eq_some_iff.mp head
  unfold handleMset Keyspace.handleMset Node.plainMset
  simp only [Keyspace.ofDb]
  by_cases shape : (first :: rest).length < 3 ∨ (first :: rest).length % 2 = 0
  · rw [if_pos shape, if_pos shape]
    exact Means.refl wellFormed _
  · rw [if_neg shape, if_neg shape]
    rcases overwritten_plain wellFormed awake now 0 (pairsOf rest) with ⟨acts, bound⟩
    have touched := plainOverwritten_touchAll db.node now 0 name (pairsOf rest)
    dsimp only [List.tail_cons]
    rcases looped : db.overwritten now name 0 (pairsOf rest) with ⟨found, greatest⟩
    rcases plain : db.node.plainOverwritten now name 0 (pairsOf rest) with ⟨read, largest⟩
    rw [looped, plain] at acts bound
    rw [plain] at touched
    obtain rfl : greatest = largest := bound
    obtain rfl : found.node = read := acts.node
    rcases overwritten_spec wellFormed awake now 0 (pairsOf rest) with ⟨_, _, each⟩
    refine Means.after acts ⟨?_, rfl⟩
    rw [← acts.frame.config]
    refine (acts_mset acts.wellFormed (acts.frame.awake awake) rest command rfl ?_).2
    intro pair member
    have listed : (name, pair.1) ∈ (pairsOf rest).map fun pair => (name, pair.1) :=
      List.mem_map.mpr ⟨pair, member, rfl⟩
    have bounded := each pair member
    rw [looped, ← touched] at bounded
    refine ⟨?_, bounded⟩
    intro held here
    rw [show found.node = db.node.touchAll now ((pairsOf rest).map fun pair => (name, pair.1))
      from touched, Node.touchAll_held, if_pos listed] at here
    simpa using (Option.filter_eq_some_iff.mp here).2

/-! ## Replicated writes and deletes -/

theorem incomingVersion_plain (db : Db) (now : Nat) (tsArg nodeArg : Bytes) :
    db.incomingVersion now tsArg nodeArg =
      (Node.admitVersion db.config now tsArg nodeArg).map fun version =>
        ({ db with clock := max db.clock version.ts }, version) := by
  unfold incomingVersion Node.admitVersion
  cases parseU64 tsArg with
  | none => rfl
  | some ts =>
      cases parseU64 nodeArg with
      | none => rfl
      | some node =>
          dsimp only
          by_cases large : uint32Max < node
          · simp only [if_pos large]
            rfl
          · simp only [if_neg large]
            by_cases far :
                (now : Int) + db.config.maxClockOffsetMs < ↑(Hlc.physicalMs (Hlc.normalize ts))
            · simp only [if_pos far]
              rfl
            · simp only [if_neg far]
              rfl

/-- What was offered after its version had been observed. -/
theorem means_observed {outcome : Db × Bytes} {record : AofRecord} {change : Change}
    {done : Bytes} {place : Place} {version : Version} (placeEq : change.place = place)
    (versionEq : change.version = version)
    (acts : Acts { db with clock := max db.clock version.ts } outcome.1
      ({ db with clock := max db.clock version.ts }.node.offer db.config now record change))
    (reply : outcome.2 =
      if ({ db with clock := max db.clock version.ts }.node.touch now place).stale place version
      then ignoredStale else done) :
    Means db outcome
      (let read := (db.node.observe version.ts).touch now place
       if read.stale place version then (read, ignoredStale)
       else (read.commit db.config record, done)) := by
  subst placeEq versionEq
  have node : { db with clock := max db.clock change.version.ts }.node =
      db.node.observe change.version.ts := rfl
  rw [node] at acts reply
  rw [offer_observe] at acts
  unfold Node.offer at acts
  dsimp only at acts ⊢
  have frame := (frame_clock (max db.clock change.version.ts)).trans acts.frame
  by_cases stale : ((db.node.observe change.version.ts).touch now change.place).stale
      change.place change.version = true
  · rw [if_pos stale] at acts reply ⊢
    exact ⟨⟨acts.node, acts.wellFormed, frame⟩, reply⟩
  · rw [if_neg stale] at acts reply ⊢
    exact ⟨⟨acts.node, acts.wellFormed, frame⟩, reply⟩

/-- A merge whose version has been admitted. -/
theorem means_mergeInto (wellFormed : db.WellFormed) (awake : db.Awake name) (now : Nat)
    {first : Bytes} (key value tsArg nodeArg : Bytes) (more : List Bytes)
    (command : upper first = ascii "CRDTMERGE") (expireAt : Option Int) (version : Version) :
    Means db
      ({ db with clock := max db.clock version.ts }.mergeInto now name key value
        (first :: key :: value :: tsArg :: nodeArg :: more) expireAt version)
      (db.node.plainMerge db.config now name key
        (first :: key :: value :: tsArg :: nodeArg :: more) expireAt version) := by
  generalize recordEq : mergeRecord name (first :: key :: value :: tsArg :: nodeArg :: more)
    expireAt version (((db.node.observe version.ts).touch now (name, key)).held (name, key)) =
      record
  have changes : record.changes = [record.put key value] := by
    rw [← recordEq]
    exact changes_merge rfl command
  have place : (record.put key value).place = (name, key) := by
    rw [← recordEq]
    rfl
  have same : (record.put key value).version = version := by
    rw [← recordEq]
    rfl
  rcases mergeInto_spec (wellFormed.withClock (max db.clock version.ts))
    (awake.withClock _) key value _ expireAt version (le_max_right db.clock version.ts)
    recordEq.symm changes with ⟨acts, reply⟩
  unfold Node.plainMerge
  dsimp only
  rw [recordEq]
  exact means_observed place same acts reply

theorem means_handleCrdtmerge (wellFormed : db.WellFormed) (awake : db.Awake name)
    {args : List Bytes} {first : Bytes} (head : args.head? = some first)
    (command : upper first = ascii "CRDTMERGE") :
    Means db (db.handleCrdtmerge now name args)
      (db.node.plainCrdtmerge db.config now name args) := by
  match args, head with
  | [_], _ => exact Means.refl wellFormed _
  | [_, _], _ => exact Means.refl wellFormed _
  | [_, _, _], _ => exact Means.refl wellFormed _
  | [_, _, _, _], _ => exact Means.refl wellFormed _
  | [named, key, value, tsArg, nodeArg], head =>
      obtain rfl : named = first := by simpa using head
      unfold handleCrdtmerge Keyspace.handleCrdtmerge Node.plainCrdtmerge
      simp only [Keyspace.ofDb]
      rw [incomingVersion_plain]
      cases Node.admitVersion db.config now tsArg nodeArg with
      | error err => exact Means.refl wellFormed err
      | ok version =>
          exact means_mergeInto wellFormed awake now key value tsArg nodeArg [] command none version
  | [named, key, value, tsArg, nodeArg, expireArg], head =>
      obtain rfl : named = first := by simpa using head
      unfold handleCrdtmerge Keyspace.handleCrdtmerge Node.plainCrdtmerge
      simp only [Keyspace.ofDb]
      cases parseI64 expireArg with
      | none => exact Means.refl wellFormed _
      | some expireAt =>
          dsimp only
          by_cases negative : expireAt < 0
          · simp only [if_pos negative]
            exact Means.refl wellFormed _
          · simp only [if_neg negative]
            rw [incomingVersion_plain]
            cases Node.admitVersion db.config now tsArg nodeArg with
            | error err => exact Means.refl wellFormed err
            | ok version =>
                exact means_mergeInto wellFormed awake now key value tsArg nodeArg [expireArg]
                  command (some expireAt) version
  | _ :: _ :: _ :: _ :: _ :: _ :: _ :: _, _ => exact Means.refl wellFormed _

theorem means_handleCrdtdel (wellFormed : db.WellFormed) (awake : db.Awake name)
    {args : List Bytes} {first : Bytes} (head : args.head? = some first)
    (command : upper first = ascii "CRDTDEL") :
    Means db (db.handleCrdtdel now name args)
      (db.node.plainCrdtdel db.config now name args) := by
  match args, head with
  | [_], _ => exact Means.refl wellFormed _
  | [_, _], _ => exact Means.refl wellFormed _
  | [_, _, _], _ => exact Means.refl wellFormed _
  | [named, key, tsArg, nodeArg], head =>
      obtain rfl : named = first := by simpa using head
      unfold handleCrdtdel Keyspace.handleCrdtdel Node.plainCrdtdel
      simp only [Keyspace.ofDb]
      rw [incomingVersion_plain]
      cases Node.admitVersion db.config now tsArg nodeArg with
      | error err => exact Means.refl wellFormed err
      | ok version =>
          rcases deleteFrom_spec
            (wellFormed.withClock (max db.clock version.ts)) (awake.withClock _) key
            [named, key, tsArg, nodeArg] version (le_max_right db.clock version.ts)
            (changes_crdtdel rfl command) with ⟨acts, reply⟩
          exact means_observed rfl rfl acts reply
  | _ :: _ :: _ :: _ :: _ :: _, _ => exact Means.refl wellFormed _

/-- Every command that runs in a room means what it means on the plain store. -/
theorem means_runInRoom (wellFormed : db.WellFormed) (awake : db.Awake name) (now : Nat)
    (resp3 : Bool) {args : List Bytes} {first : Bytes} (head : args.head? = some first)
    {kind : RoomCommand} (named : Command.named (upper first) = .inRoom kind) :
    Means db (db.runInRoom now resp3 name args kind)
      (db.node.plain db.config now resp3 name args kind) := by
  cases kind with
  | get => exact means_handleGet wellFormed awake resp3 args
  | set => exact means_handleSet wellFormed awake resp3 head (named_set named)
  | del => exact means_handleDel wellFormed awake now args
  | crdtmerge => exact means_handleCrdtmerge wellFormed awake head (named_crdtmerge named)
  | crdtdel => exact means_handleCrdtdel wellFormed awake head (named_crdtdel named)
  | mget => exact means_handleMget wellFormed awake resp3 args
  | mset => exact means_handleMset wellFormed awake head (named_mset named)
  | exist => exact means_handleExists wellFormed awake args
  | expire => exact means_handleExpire wellFormed awake args 1000
  | pexpire => exact means_handleExpire wellFormed awake args 1
  | persist => exact means_handleExpire wellFormed awake args 0
  | ttl => exact means_handleTtl wellFormed awake args false
  | pttl => exact means_handleTtl wellFormed awake args true
  | save => exact Means.refl wellFormed _
  | unknown => exact Means.refl wellFormed _

end Handlers

end Db

end SomniumDB
