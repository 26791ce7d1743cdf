import SomniumDB.Core.Runs
import SomniumDB.Abstract.View

/-! # What the rooms cost

Every room carries the estimated size of its keys in RAM, and the node the totals
over all rooms. The primitives that change the keys of a room charge the difference,
so that the figures stay sums over what is there. -/

namespace SomniumDB

open Bytes

namespace Db

/-- The sum of the rooms' sizes. -/
def roomBytes (rooms : FiniteMap Bytes Room) : Int :=
  rooms.total fun _ room => room.bytes

/-- The number of keys in RAM. -/
def residentKeys (rooms : FiniteMap Bytes Room) : Int :=
  rooms.total fun _ room => room.keys.toPairs.length

/-- The number of rooms that are not asleep. -/
def awakeRooms (rooms : FiniteMap Bytes Room) : Int :=
  rooms.total fun _ room => if room.state = .active then 1 else 0

/-- The figures agree with what is in RAM. -/
structure Accounted (db : Db) : Prop where
  bytes : ∀ name, (db.room name).bytes = (db.room name).keysCost
  asleep : ∀ name, (db.room name).state = .sleeping → (db.room name).keys = ∅
  resident : db.metrics.residentBytes = roomBytes db.rooms
  count : db.metrics.keysInRam = residentKeys db.rooms
  active : (db.activeRooms : Int) = awakeRooms db.rooms

variable {db after : Db} {name : Bytes}

theorem keysCost_eq (room : Room) : room.keysCost = room.keys.total recordCost := rfl

/-- The weight of the entry under a name is that of the room, if an unknown room
weighs nothing. -/
theorem weight_room (db : Db) (name : Bytes) (weight : Room → Int) (nothing : weight {} = 0) :
    ((db.rooms.lookup name).map weight).getD 0 = weight (db.room name) := by
  unfold room
  cases db.rooms.lookup name with
  | none => exact nothing.symm
  | some found => rfl

/-- One room is replaced, with the difference charged to the totals. -/
theorem Accounted.replaced (accounted : db.Accounted) (room : Room)
    (rooms : after.rooms = db.rooms.insert name room)
    (bytes : room.bytes = room.keysCost) (asleep : room.state = .sleeping → room.keys = ∅)
    (resident : after.metrics.residentBytes =
      db.metrics.residentBytes + (room.bytes - (db.room name).bytes))
    (count : after.metrics.keysInRam =
      db.metrics.keysInRam + (room.keys.toPairs.length - (db.room name).keys.toPairs.length))
    (active : (after.activeRooms : Int) = db.activeRooms +
      ((if room.state = .active then 1 else 0) -
        if (db.room name).state = .active then 1 else 0)) : after.Accounted := by
  have others : ∀ other, after.room other = if other = name then room else db.room other := by
    intro other
    unfold Db.room
    rw [rooms, FiniteMap.lookup_insert_if]
    by_cases equal : other = name
    · simp only [if_pos equal]
      rfl
    · simp only [if_neg equal]
  have total : ∀ weight : Room → Int, weight {} = 0 →
      after.rooms.total (fun _ room => weight room) =
        db.rooms.total (fun _ room => weight room) + (weight room - weight (db.room name)) := by
    intro weight nothing
    rw [rooms, FiniteMap.total_insert, weight_room db name weight nothing]
    omega
  refine ⟨?_, ?_, ?_, ?_, ?_⟩
  · intro other
    rw [others]
    by_cases same : other = name
    · rw [if_pos same]
      exact bytes
    · rw [if_neg same]
      exact accounted.bytes other
  · intro other
    rw [others]
    by_cases same : other = name
    · rw [if_pos same]
      exact asleep
    · rw [if_neg same]
      exact accounted.asleep other
  · rw [roomBytes, total _ rfl, resident, accounted.resident]
    rfl
  · rw [residentKeys, total _ rfl, count, accounted.count]
    rfl
  · rw [awakeRooms, total _ rfl, active, accounted.active]
    rfl

/-- What concerns neither the rooms nor their figures changes nothing. -/
theorem Accounted.elsewhere (accounted : db.Accounted) (rooms : after.rooms = db.rooms)
    (resident : after.metrics.residentBytes = db.metrics.residentBytes)
    (count : after.metrics.keysInRam = db.metrics.keysInRam)
    (active : after.activeRooms = db.activeRooms) : after.Accounted := by
  have same : ∀ other, after.room other = db.room other := by
    intro other
    rw [Db.room, rooms]
    rfl
  refine ⟨?_, ?_, ?_, ?_, ?_⟩
  · intro other
    rw [same]
    exact accounted.bytes other
  · intro other
    rw [same]
    exact accounted.asleep other
  · rw [resident, rooms]
    exact accounted.resident
  · rw [count, rooms]
    exact accounted.count
  · rw [active, rooms]
    exact accounted.active

/-! ## The keys of one awake room -/

/-- A step in an awake room that charges what it changes, and neither wakes a room nor
puts one to sleep. -/
structure Charges (name : Bytes) (db after : Db) : Prop where
  state : ∀ other, (after.room other).state = (db.room other).state
  active : after.activeRooms = db.activeRooms
  accounted : db.Accounted → db.Awake name → after.Accounted

theorem Charges.refl : Charges name db db :=
  ⟨fun _ => rfl, rfl, fun accounted _ => accounted⟩

theorem Charges.awake (charges : Charges name db after) (awake : db.Awake name) :
    after.Awake name :=
  (charges.state name).trans awake

theorem Charges.trans {second third : Db} (left : Charges name db second)
    (right : Charges name second third) : Charges name db third where
  state other := (right.state other).trans (left.state other)
  active := right.active.trans left.active
  accounted figures awake := right.accounted (left.accounted figures awake) (left.awake awake)

theorem charges_elsewhere (rooms : after.rooms = db.rooms)
    (resident : after.metrics.residentBytes = db.metrics.residentBytes)
    (count : after.metrics.keysInRam = db.metrics.keysInRam)
    (active : after.activeRooms = db.activeRooms) : Charges name db after := by
  refine ⟨?_, active, fun accounted _ => accounted.elsewhere rooms resident count active⟩
  intro other
  rw [room, rooms]
  rfl

theorem Accounted.putKeys (accounted : db.Accounted) {keys : FiniteMap Bytes Record}
    {delta count : Int} (asleep : (db.room name).state = .sleeping → keys = ∅)
    (cost : delta = keys.total recordCost - (db.keysOf name).total recordCost)
    (length : count = keys.toPairs.length - (db.keysOf name).toPairs.length) :
    (db.putKeys name keys delta count).Accounted := by
  have before := accounted.bytes name
  rw [keysCost_eq] at before
  apply accounted.replaced _ rfl
  · change (db.room name).bytes + delta = keys.total recordCost
    rw [cost, before]
    change _ + (_ - (db.room name).keys.total recordCost) = _
    omega
  · exact asleep
  · change db.metrics.residentBytes + delta = _
    dsimp only
    omega
  · change db.metrics.keysInRam + count = _
    rw [length]
    rfl
  · change (db.activeRooms : Int) = _
    dsimp only
    omega

theorem charges_putKeys {keys : FiniteMap Bytes Record} {delta count : Int}
    (cost : delta = keys.total recordCost - (db.keysOf name).total recordCost)
    (length : count = keys.toPairs.length - (db.keysOf name).toPairs.length) :
    Charges name db (db.putKeys name keys delta count) := by
  refine ⟨state_putKeys db name keys delta count, rfl, ?_⟩
  intro accounted awake
  refine accounted.putKeys ?_ cost length
  intro asleep
  rw [awake] at asleep
  cases asleep

theorem count_insert (keys : FiniteMap Bytes Record) (key : Bytes) (record : Record) :
    (FiniteMap.toPairs (keys.insert key record)).length =
      (keys.toPairs.length : Int) - ((keys.lookup key).map fun _ => 1).getD 0 + 1 := by
  rw [← FiniteMap.total_one, ← FiniteMap.total_one, FiniteMap.total_insert]

theorem count_erase (keys : FiniteMap Bytes Record) (key : Bytes) :
    (FiniteMap.toPairs (keys.erase key)).length =
      (keys.toPairs.length : Int) - ((keys.lookup key).map fun _ => 1).getD 0 := by
  rw [← FiniteMap.total_one, ← FiniteMap.total_one, FiniteMap.total_erase]

/-- A record is put under a key that is not in RAM. -/
theorem charges_added {key : Bytes} {record : Record}
    (absent : (db.keysOf name).lookup key = none) :
    Charges name db
      (db.putKeys name ((db.keysOf name).insert key record) (recordCost key record) 1) := by
  apply charges_putKeys
  · rw [FiniteMap.total_insert, absent, Option.map_none, Option.getD_none]
    omega
  · rw [count_insert, absent, Option.map_none, Option.getD_none]
    omega

theorem charges_insert {key : Bytes} (absent : (db.keysOf name).lookup key = none) :
    Charges name db (db.insert name key) :=
  charges_added absent

theorem charges_assign {key : Bytes} {old new : Record}
    (found : (db.keysOf name).lookup key = some old) :
    Charges name db (db.assign name key old new) := by
  apply charges_putKeys
  · rw [FiniteMap.total_insert, found, Option.map_some, Option.getD_some]
    unfold recordCost
    omega
  · rw [count_insert, found, Option.map_some, Option.getD_some]
    omega

theorem charges_erase (key : Bytes) : Charges name db (db.erase name key) := by
  unfold erase
  cases found : (db.keysOf name).lookup key with
  | none => exact .refl
  | some record =>
      apply charges_putKeys
      · rw [FiniteMap.total_erase, found, Option.map_some, Option.getD_some]
        omega
      · rw [count_erase, found, Option.map_some, Option.getD_some]
        omega

theorem charges_lookup (db : Db) (name : Bytes) (now : Nat) (key : Bytes) :
    Charges name db (db.lookup now name key).1 := by
  unfold lookup
  cases absent : (db.keysOf name).lookup key with
  | none =>
      cases db.cold.find name key with
      | none => exact .refl
      | some record =>
          dsimp only
          have taken : Charges name db { db with cold := db.cold.remove name key } :=
            charges_elsewhere rfl rfl rfl rfl
          by_cases expired : record.expired now = true
          · rw [if_pos expired]
            exact taken
          · rw [if_neg expired]
            exact taken.trans (charges_added absent)
  | some record =>
      dsimp only
      by_cases expired : record.expired now = true
      · rw [if_pos expired]
        exact charges_erase key
      · rw [if_neg expired]
        exact .refl

/-- What is found is in RAM afterwards, and what is not found is not. -/
theorem keysOf_lookup (db : Db) (now : Nat) (name key : Bytes) :
    ((db.lookup now name key).1.keysOf name).lookup key = (db.lookup now name key).2 := by
  unfold lookup
  cases found : (db.keysOf name).lookup key with
  | none =>
      cases db.cold.find name key with
      | none => exact found
      | some record =>
          dsimp only
          by_cases late : record.expired now = true
          · rw [if_pos late]
            exact found
          · rw [if_neg late]
            dsimp only
            rw [keysOf_putKeys, if_pos rfl, FiniteMap.lookup_insert_if, if_pos rfl]
  | some record =>
      dsimp only
      by_cases expired : record.expired now = true
      · rw [if_pos expired]
        unfold erase
        rw [found]
        dsimp only
        rw [keysOf_putKeys, if_pos rfl, FiniteMap.lookup_erase_if, if_pos rfl]
      · rw [if_neg expired]
        exact found

theorem charges_setTomb (key : Bytes) (version : Version) :
    Charges name db (db.setTomb name key version) := by
  unfold setTomb
  by_cases alone : db.config.peerCount = 0 ∨ version.ts ≤ db.watermark
  · rw [if_pos alone]
    exact .refl
  · rw [if_neg alone]
    cases db.findTomb name key with
    | none => exact charges_elsewhere rfl rfl rfl rfl
    | some _ => exact charges_elsewhere rfl rfl rfl rfl

theorem charges_clearTomb (key : Bytes) : Charges name db (db.clearTomb name key) := by
  unfold clearTomb
  cases db.findTomb name key with
  | none => exact .refl
  | some _ => exact charges_elsewhere rfl rfl rfl rfl

theorem keysOf_clearTomb (db : Db) (name key other : Bytes) :
    (db.clearTomb name key).keysOf other = db.keysOf other := by
  unfold clearTomb
  cases db.findTomb name key with
  | none => rfl
  | some _ => rfl

theorem charges_append (record : AofRecord) : Charges name db (db.append record) :=
  charges_elsewhere rfl rfl rfl rfl

theorem charges_clock (clock : Nat) : Charges name db { db with clock } :=
  charges_elsewhere rfl rfl rfl rfl

/-! ## The handlers -/

/-- The record that a write goes to is in RAM. -/
theorem charges_recordFor {key : Bytes} {record : Option Record}
    (found : (db.keysOf name).lookup key = record) :
    Charges name db (db.recordFor name key record).1 ∧
      ((db.recordFor name key record).1.keysOf name).lookup key =
        some (db.recordFor name key record).2 := by
  cases record with
  | some old => exact ⟨.refl, found⟩
  | none =>
      refine ⟨(charges_insert found).trans (charges_clearTomb key), ?_⟩
      change (((db.insert name key).clearTomb name key).keysOf name).lookup key = some {}
      rw [keysOf_clearTomb, insert, keysOf_putKeys, if_pos rfl, FiniteMap.lookup_insert_if,
        if_pos rfl]

theorem charges_writeKey {key value : Bytes} {expireAt : Int} {version : Nat}
    {record : Option Record} (found : (db.keysOf name).lookup key = record) :
    Charges name db (db.writeKey name key value expireAt version record) := by
  rcases charges_recordFor found with ⟨charged, ready⟩
  exact charged.trans (charges_assign ready)

theorem charges_handleSet (now : Nat) (resp3 : Bool) (args : List Bytes) :
    Charges name db (db.handleSet now resp3 name args).1 := by
  unfold handleSet Keyspace.handleSet
  simp only [Keyspace.ofDb]
  match args with
  | head :: key :: value :: options =>
      dsimp only
      cases setOptions now {} options with
      | error _ => exact .refl
      | ok options =>
          dsimp only
          have looked := charges_lookup db name now key
          have found := keysOf_lookup db now name key
          by_cases refused : (options.nx && (db.lookup now name key).2.isSome || options.xx &&
              (db.lookup now name key).2.isNone) = true
          · rw [if_pos refused]
            exact looked
          · rw [if_neg refused]
            generalize Hlc.next _ _ _ = version
            exact ((looked.trans (charges_clock version)).trans (charges_writeKey found)).trans
              (charges_append _)
  | [] | [_] | [_, _] => exact .refl

theorem charges_overwritten (now greatest : Nat) (pairs : List (Bytes × Bytes)) :
    Charges name db (db.overwritten now name greatest pairs).1 := by
  induction pairs generalizing db greatest with
  | nil => exact .refl
  | cons pair rest induction => exact (charges_lookup db name now pair.1).trans (induction _)

theorem charges_writePairs (now version : Nat) (pairs : List (Bytes × Bytes)) :
    Charges name db (db.writePairs now name version pairs) := by
  induction pairs generalizing db with
  | nil => exact .refl
  | cons pair rest induction =>
      have found := keysOf_lookup db now name pair.1
      exact ((charges_lookup db name now pair.1).trans (charges_writeKey found)).trans induction

theorem charges_handleMset (now : Nat) (args : List Bytes) :
    Charges name db (db.handleMset now name args).1 := by
  unfold handleMset Keyspace.handleMset
  simp only [Keyspace.ofDb]
  by_cases malformed : args.length < 3 ∨ args.length % 2 = 0
  · rw [if_pos malformed]
    exact .refl
  · rw [if_neg malformed]
    exact (((charges_overwritten now 0 _).trans (charges_clock _)).trans
      (charges_writePairs now _ _)).trans (charges_append _)

theorem charges_mgetLoop (now : Nat) (resp3 : Bool) (out : Bytes) (keys : List Bytes) :
    Charges name db (db.mgetLoop now resp3 name out keys).1 := by
  induction keys generalizing db out with
  | nil => exact .refl
  | cons key rest induction =>
      have looked := charges_lookup db name now key
      unfold mgetLoop Keyspace.mgetLoop
      simp only [Keyspace.ofDb]
      rcases equal : db.lookup now name key with ⟨found, _ | record⟩
      · rw [equal] at looked
        exact looked.trans (induction _)
      · dsimp only
        rw [equal] at looked
        by_cases long : maxReply < out.length + record.value.length
        · rw [if_pos long]
          exact looked
        · rw [if_neg long]
          exact looked.trans (induction _)

theorem charges_existsLoop (now count : Nat) (keys : List Bytes) :
    Charges name db (db.existsLoop now name count keys).1 := by
  induction keys generalizing db count with
  | nil => exact .refl
  | cons key rest induction => exact (charges_lookup db name now key).trans (induction _)

theorem charges_delLoop (now deleted : Nat) (keys : List Bytes) :
    Charges name db (db.delLoop now name deleted keys).1 := by
  induction keys generalizing db deleted with
  | nil => exact .refl
  | cons key rest induction =>
      have looked := charges_lookup db name now key
      unfold delLoop Keyspace.delLoop
      simp only [Keyspace.ofDb]
      rcases equal : db.lookup now name key with ⟨found, _ | record⟩
      · rw [equal] at looked
        exact looked.trans (induction _)
      · rw [equal] at looked
        exact ((((looked.trans (charges_clock _)).trans (charges_erase key)).trans
          (charges_setTomb key _)).trans (charges_append _)).trans (induction _)

theorem charges_handleDel (now : Nat) (args : List Bytes) :
    Charges name db (db.handleDel now name args).1 := by
  unfold handleDel Keyspace.handleDel
  simp only [Keyspace.ofDb]
  match args with
  | _ :: _ :: _ => exact charges_delLoop now 0 _
  | [] | [_] => exact .refl

theorem charges_handleExpire (now : Nat) (args : List Bytes) (scale : Int) :
    Charges name db (db.handleExpire now name args scale).1 := by
  unfold handleExpire Keyspace.handleExpire
  simp only [Keyspace.ofDb]
  by_cases shape : (if scale ≠ 0 then args.length < 3 else args.length ≠ 2)
  · rw [if_pos shape]
    exact .refl
  · rw [if_neg shape]
    cases expireOptions {} (args.drop 3) with
    | error _ => exact .refl
    | ok options =>
        dsimp only
        by_cases clash : (options.nx && (options.xx || options.gt || options.lt)) = true
        · rw [if_pos clash]
          exact .refl
        · rw [if_neg clash]
          by_cases both : (options.gt && options.lt) = true
          · rw [if_pos both]
            exact .refl
          · rw [if_neg both]
            rcases expireDeadline now scale args with _ | ⟨n, expireAt⟩
            · exact .refl
            · generalize args[1]?.getD [] = key
              have looked := charges_lookup db name now key
              have found := keysOf_lookup db now name key
              rcases equal : db.lookup now name key with ⟨_, _ | record⟩
              · rw [equal] at looked
                exact looked
              · dsimp only
                rw [equal] at looked found
                by_cases refused : scale = 0 ∧ record.expireAt = 0 ∨
                    expireRefused options record expireAt = true
                · rw [if_pos refused]
                  exact looked
                · rw [if_neg refused]
                  by_cases spent : scale ≠ 0 ∧ n ≤ 0
                  · rw [if_pos spent]
                    exact looked.trans (charges_handleDel now _)
                  · rw [if_neg spent]
                    generalize Hlc.next _ _ _ = version
                    exact ((looked.trans (charges_clock version)).trans
                      (charges_assign found)).trans (charges_append _)

theorem charges_mergeInto (now : Nat) (key value : Bytes) (args : List Bytes)
    (expireAt : Option Int) (version : Version) :
    Charges name db (db.mergeInto now name key value args expireAt version).1 := by
  have looked := charges_lookup db name now key
  have found := keysOf_lookup db now name key
  unfold mergeInto Keyspace.mergeInto
  simp only [Keyspace.ofDb]
  by_cases stale :
      (db.lookup now name key).1.stale name key (db.lookup now name key).2 version = true
  · rw [if_pos stale]
    exact looked
  · rw [if_neg stale]
    rcases charges_recordFor found with ⟨charged, ready⟩
    exact ((looked.trans charged).trans (charges_assign ready)).trans (charges_append _)

theorem charges_deleteFrom (now : Nat) (key : Bytes) (args : List Bytes) (version : Version) :
    Charges name db (db.deleteFrom now name key args version).1 := by
  have looked := charges_lookup db name now key
  unfold deleteFrom Keyspace.deleteFrom
  simp only [Keyspace.ofDb]
  by_cases stale :
      (db.lookup now name key).1.stale name key (db.lookup now name key).2 version = true
  · rw [if_pos stale]
    exact looked
  · rw [if_neg stale]
    refine ((looked.trans ?_).trans (charges_setTomb key version)).trans (charges_append _)
    by_cases present : (db.lookup now name key).2.isSome = true
    · rw [if_pos present]
      exact charges_erase key
    · rw [if_neg present]
      exact .refl

theorem charges_incomingVersion {now : Nat} {tsArg nodeArg : Bytes} {observed : Db}
    {version : Version} (admitted : db.incomingVersion now tsArg nodeArg = .ok (observed, version)) :
    Charges name db observed := by
  unfold incomingVersion at admitted
  split at admitted
  · split at admitted
    · cases admitted
    · dsimp only at admitted
      split at admitted
      · cases admitted
      · cases admitted
        exact charges_clock _
  · cases admitted

theorem charges_handleCrdtmerge (now : Nat) (args : List Bytes) :
    Charges name db (db.handleCrdtmerge now name args).1 := by
  unfold handleCrdtmerge Keyspace.handleCrdtmerge
  simp only [Keyspace.ofDb]
  match args with
  | [head, key, value, tsArg, nodeArg] =>
      dsimp only
      rcases admitted : db.incomingVersion now tsArg nodeArg with _ | ⟨_, _⟩
      · exact .refl
      · exact (charges_incomingVersion admitted).trans (charges_mergeInto now _ _ _ _ _)
  | [head, key, value, tsArg, nodeArg, expireArg] =>
      dsimp only
      cases FsUtil.parseI64 expireArg with
      | none => exact .refl
      | some expireAt =>
          dsimp only
          by_cases negative : expireAt < 0
          · rw [if_pos negative]
            exact .refl
          · rw [if_neg negative]
            rcases admitted : db.incomingVersion now tsArg nodeArg with _ | ⟨_, _⟩
            · exact .refl
            · exact (charges_incomingVersion admitted).trans (charges_mergeInto now _ _ _ _ _)
  | [] | [_] | [_, _] | [_, _, _] | [_, _, _, _] | _ :: _ :: _ :: _ :: _ :: _ :: _ :: _ =>
      exact .refl

theorem charges_handleCrdtdel (now : Nat) (args : List Bytes) :
    Charges name db (db.handleCrdtdel now name args).1 := by
  unfold handleCrdtdel Keyspace.handleCrdtdel
  simp only [Keyspace.ofDb]
  match args with
  | [head, key, tsArg, nodeArg] =>
      dsimp only
      rcases admitted : db.incomingVersion now tsArg nodeArg with _ | ⟨_, _⟩
      · exact .refl
      · exact (charges_incomingVersion admitted).trans (charges_deleteFrom now _ _ _)
  | [] | [_] | [_, _] | [_, _, _] | _ :: _ :: _ :: _ :: _ :: _ => exact .refl

theorem charges_handleTtl (now : Nat) (args : List Bytes) (millis : Bool) :
    Charges name db (db.handleTtl now name args millis).1 := by
  unfold handleTtl Keyspace.handleTtl
  simp only [Keyspace.ofDb]
  match args with
  | [head, key] =>
      dsimp only
      have looked := charges_lookup db name now key
      rcases equal : db.lookup now name key with ⟨found, _ | record⟩
      · rw [equal] at looked
        exact looked
      · dsimp only
        rw [equal] at looked
        by_cases same : record.expireAt = 0
        · rw [if_pos same]
          exact looked
        · rw [if_neg same]
          exact looked
  | [] | [_] | _ :: _ :: _ :: _ => exact .refl

/-- Every command that runs in a room. -/
theorem charges_runInRoom (now : Nat) (resp3 : Bool) (args : List Bytes) (kind : RoomCommand) :
    Charges name db (db.runInRoom now resp3 name args kind).1 := by
  cases kind with
  | get =>
      change Charges name db (db.handleGet now resp3 name args).1
      unfold handleGet Keyspace.handleGet
      simp only [Keyspace.ofDb]
      match args with
      | [_, _] => exact charges_lookup db name now _
      | [] | [_] | _ :: _ :: _ :: _ => exact .refl
  | set => exact charges_handleSet now resp3 args
  | del => exact charges_handleDel now args
  | crdtmerge => exact charges_handleCrdtmerge now args
  | crdtdel => exact charges_handleCrdtdel now args
  | mget =>
      change Charges name db (db.handleMget now resp3 name args).1
      unfold handleMget Keyspace.handleMget
      simp only [Keyspace.ofDb]
      match args with
      | _ :: _ :: _ => exact charges_mgetLoop now resp3 _ _
      | [] | [_] => exact .refl
  | mset => exact charges_handleMset now args
  | exist =>
      change Charges name db (db.handleExists now name args).1
      unfold handleExists Keyspace.handleExists
      simp only [Keyspace.ofDb]
      match args with
      | _ :: _ :: _ => exact charges_existsLoop now 0 _
      | [] | [_] => exact .refl
  | expire => exact charges_handleExpire now args 1000
  | pexpire => exact charges_handleExpire now args 1
  | persist => exact charges_handleExpire now args 0
  | ttl => exact charges_handleTtl now args false
  | pttl => exact charges_handleTtl now args true
  | save => exact .refl
  | unknown => exact .refl

theorem charges_evictDespisedKeys (victims : List Bytes) :
    Charges name db (db.evictDespisedKeys name victims) := by
  induction victims generalizing db with
  | nil => exact .refl
  | cons victim rest induction =>
      unfold evictDespisedKeys
      dsimp only
      by_cases within : (db.keysOf name).entries = [] ∨
          (db.keysOf name).toPairs.length ≤ db.config.maxKeys ∧ db.fits 0 = true
      · rw [if_pos within]
        exact .refl
      · rw [if_neg within]
        cases found : (db.keysOf name).lookup victim with
        | none => exact induction
        | some record =>
            have moved : Charges name db
                { db with
                  cold := db.cold.set name victim record
                  coldFileBytes := db.coldFileBytes + coldSize record } :=
              charges_elsewhere rfl rfl rfl rfl
            refine (moved.trans (charges_putKeys ?_ ?_)).trans induction
            · change _ = _ - (db.keysOf name).total recordCost
              rw [FiniteMap.total_erase, found, Option.map_some, Option.getD_some]
              omega
            · change _ = _ - ((db.keysOf name).toPairs.length : Int)
              rw [count_erase, found, Option.map_some, Option.getD_some]
              omega

end Db

end SomniumDB
