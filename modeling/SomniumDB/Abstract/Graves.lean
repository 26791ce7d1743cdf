import SomniumDB.Abstract.Dispatch

/-! # What happens to the tombstones

Two primitives change the tombstones: a delete sets one, and a write to an absent key
clears one. No command does both. Everything else on a node leaves them alone, a
frontier of a peer apart, which can collect them. -/

namespace SomniumDB

open Bytes FsUtil

namespace Db

/-- The tombstones, their number, and what decides about them are as they were. -/
structure Undisturbed (db after : Db) : Prop where
  config : after.config = db.config
  tombstones : after.tombstones = db.tombstones
  frontiers : after.frontiers = db.frontiers
  watermark : after.watermark = db.watermark
  count : after.metrics.tombstones = db.metrics.tombstones

variable {db after : Db} {name : Bytes}

theorem Undisturbed.refl : Undisturbed db db :=
  ⟨rfl, rfl, rfl, rfl, rfl⟩

theorem Undisturbed.trans {second third : Db} (left : Undisturbed db second)
    (right : Undisturbed second third) : Undisturbed db third where
  config := right.config.trans left.config
  tombstones := right.tombstones.trans left.tombstones
  frontiers := right.frontiers.trans left.frontiers
  watermark := right.watermark.trans left.watermark
  count := right.count.trans left.count

/-- A delete marks a key, or something else happens. -/
inductive MarkStep (db : Db) : Db → Prop
  | aside {after : Db} (undisturbed : Undisturbed db after) : MarkStep db after
  | mark (name key : Bytes) (version : Version) : MarkStep db (db.setTomb name key version)

/-- A write clears the tombstone of a key, or something else happens. -/
inductive ClearStep (db : Db) : Db → Prop
  | aside {after : Db} (undisturbed : Undisturbed db after) : ClearStep db after
  | clear (name key : Bytes) : ClearStep db (db.clearTomb name key)

abbrev Marks : Db → Db → Prop :=
  Relation.ReflTransGen MarkStep

abbrev Clears : Db → Db → Prop :=
  Relation.ReflTransGen ClearStep

theorem Undisturbed.marks (undisturbed : Undisturbed db after) : Marks db after :=
  .single (.aside undisturbed)

theorem Undisturbed.clears (undisturbed : Undisturbed db after) : Clears db after :=
  .single (.aside undisturbed)

theorem marks_setTomb (db : Db) (name key : Bytes) (version : Version) :
    Marks db (db.setTomb name key version) :=
  .single (.mark name key version)

theorem clears_clearTomb (db : Db) (name key : Bytes) : Clears db (db.clearTomb name key) :=
  .single (.clear name key)

/-! ## Access to records -/

theorem undisturbed_erase (db : Db) (name key : Bytes) : Undisturbed db (db.erase name key) := by
  unfold erase
  cases (db.keysOf name).lookup key with
  | none => exact .refl
  | some _ => exact ⟨rfl, rfl, rfl, rfl, rfl⟩

theorem undisturbed_lookup (db : Db) (now : Nat) (name key : Bytes) :
    Undisturbed db (db.lookup now name key).1 := by
  unfold lookup
  cases (db.keysOf name).lookup key with
  | none =>
      cases db.cold.find name key with
      | none => exact .refl
      | some record =>
          dsimp only
          by_cases expired : record.expired now = true
          · rw [if_pos expired]
            exact ⟨rfl, rfl, rfl, rfl, rfl⟩
          · rw [if_neg expired]
            exact ⟨rfl, rfl, rfl, rfl, rfl⟩
  | some record =>
      dsimp only
      by_cases expired : record.expired now = true
      · rw [if_pos expired]
        exact undisturbed_erase db name key
      · rw [if_neg expired]
        exact .refl

theorem undisturbed_insert (db : Db) (name key : Bytes) : Undisturbed db (db.insert name key) :=
  ⟨rfl, rfl, rfl, rfl, rfl⟩

theorem undisturbed_assign (db : Db) (name key : Bytes) (old new : Record) :
    Undisturbed db (db.assign name key old new) :=
  ⟨rfl, rfl, rfl, rfl, rfl⟩

theorem undisturbed_append (db : Db) (record : AofRecord) : Undisturbed db (db.append record) :=
  ⟨rfl, rfl, rfl, rfl, rfl⟩

theorem undisturbed_clock (db : Db) (clock : Nat) : Undisturbed db { db with clock } :=
  ⟨rfl, rfl, rfl, rfl, rfl⟩

/-! ## Writes -/

theorem clears_recordFor (db : Db) (name key : Bytes) (record : Option Record) :
    Clears db (db.recordFor name key record).1 := by
  cases record with
  | some old => exact .refl
  | none => exact (undisturbed_insert db name key).clears.trans (clears_clearTomb _ name key)

theorem clears_writeKey (db : Db) (name key value : Bytes) (expireAt : Int) (version : Nat)
    (record : Option Record) :
    Clears db (db.writeKey name key value expireAt version record) :=
  (clears_recordFor db name key record).trans (undisturbed_assign _ _ _ _ _).clears

theorem clears_handleSet (db : Db) (now : Nat) (resp3 : Bool) (name : Bytes)
    (args : List Bytes) : Clears db (db.handleSet now resp3 name args).1 := by
  unfold handleSet Keyspace.handleSet
  simp only [Keyspace.ofDb]
  match args with
  | head :: key :: value :: options =>
      dsimp only
      cases setOptions now {} options with
      | error _ => exact .refl
      | ok options =>
          dsimp only
          have looked := (undisturbed_lookup db now name key).clears
          by_cases refused : (options.nx && (db.lookup now name key).2.isSome || options.xx &&
              (db.lookup now name key).2.isNone) = true
          · rw [if_pos refused]
            exact looked
          · rw [if_neg refused]
            refine ((looked.trans (undisturbed_clock _ _).clears).trans
              (clears_writeKey _ _ _ _ _ _ _)).trans (undisturbed_append _ _).clears
  | [] | [_] | [_, _] => exact .refl

theorem undisturbed_overwritten (db : Db) (now : Nat) (name : Bytes) (greatest : Nat)
    (pairs : List (Bytes × Bytes)) : Undisturbed db (db.overwritten now name greatest pairs).1 := by
  induction pairs generalizing db greatest with
  | nil => exact .refl
  | cons pair rest induction =>
      exact (undisturbed_lookup db now name pair.1).trans (induction _ _)

theorem clears_writePairs (db : Db) (now : Nat) (name : Bytes) (version : Nat)
    (pairs : List (Bytes × Bytes)) : Clears db (db.writePairs now name version pairs) := by
  induction pairs generalizing db with
  | nil => exact .refl
  | cons pair rest induction =>
      exact ((undisturbed_lookup db now name pair.1).clears.trans
        (clears_writeKey _ _ _ _ _ _ _)).trans (induction _)

theorem clears_handleMset (db : Db) (now : Nat) (name : Bytes) (args : List Bytes) :
    Clears db (db.handleMset now name args).1 := by
  unfold handleMset Keyspace.handleMset
  simp only [Keyspace.ofDb]
  by_cases malformed : args.length < 3 ∨ args.length % 2 = 0
  · rw [if_pos malformed]
  · rw [if_neg malformed]
    exact (((undisturbed_overwritten db now name 0 _).trans (undisturbed_clock _ _)).clears.trans
      (clears_writePairs _ _ _ _ _)).trans (undisturbed_append _ _).clears

theorem clears_mergeInto (db : Db) (now : Nat) (name key value : Bytes) (args : List Bytes)
    (expireAt : Option Int) (version : Version) :
    Clears db (db.mergeInto now name key value args expireAt version).1 := by
  have looked := (undisturbed_lookup db now name key).clears
  unfold mergeInto Keyspace.mergeInto
  simp only [Keyspace.ofDb]
  by_cases stale :
      (db.lookup now name key).1.stale name key (db.lookup now name key).2 version = true
  · rw [if_pos stale]
    exact looked
  · rw [if_neg stale]
    exact ((looked.trans (clears_recordFor _ _ _ _)).trans
      (undisturbed_assign _ _ _ _ _).clears).trans (undisturbed_append _ _).clears

theorem undisturbed_incomingVersion {now : Nat} {tsArg nodeArg : Bytes} {observed : Db}
    {version : Version}
    (admitted : db.incomingVersion now tsArg nodeArg = .ok (observed, version)) :
    Undisturbed db observed := by
  rw [(incomingVersion_ok admitted).observed]
  exact undisturbed_clock db _

theorem clears_handleCrdtmerge (db : Db) (now : Nat) (name : Bytes) (args : List Bytes) :
    Clears db (db.handleCrdtmerge now name args).1 := by
  unfold handleCrdtmerge Keyspace.handleCrdtmerge
  simp only [Keyspace.ofDb]
  match args with
  | [head, key, value, tsArg, nodeArg] =>
      dsimp only
      rcases admitted : db.incomingVersion now tsArg nodeArg with _ | ⟨_, _⟩
      · exact .refl
      · exact (undisturbed_incomingVersion admitted).clears.trans (clears_mergeInto _ _ _ _ _ _ _ _)
  | [head, key, value, tsArg, nodeArg, expireArg] =>
      dsimp only
      cases parseI64 expireArg with
      | none => exact .refl
      | some expireAt =>
          dsimp only
          by_cases negative : expireAt < 0
          · rw [if_pos negative]
          · rw [if_neg negative]
            rcases admitted : db.incomingVersion now tsArg nodeArg with _ | ⟨_, _⟩
            · exact .refl
            · exact (undisturbed_incomingVersion admitted).clears.trans
                (clears_mergeInto _ _ _ _ _ _ _ _)
  | [] | [_] | [_, _] | [_, _, _] | [_, _, _, _] | _ :: _ :: _ :: _ :: _ :: _ :: _ :: _ =>
      exact .refl

/-! ## Deletes -/

theorem marks_delLoop (db : Db) (now : Nat) (name : Bytes) (deleted : Nat) (keys : List Bytes) :
    Marks db (db.delLoop now name deleted keys).1 := by
  induction keys generalizing db deleted with
  | nil => exact .refl
  | cons key rest induction =>
      have looked := undisturbed_lookup db now name key
      unfold delLoop Keyspace.delLoop
      simp only [Keyspace.ofDb]
      rcases equal : db.lookup now name key with ⟨found, _ | record⟩
      · rw [equal] at looked
        exact looked.marks.trans (induction _ _)
      · rw [equal] at looked
        exact ((((looked.trans (undisturbed_clock _ _)).trans
          (undisturbed_erase _ name key)).marks.trans (marks_setTomb _ _ _ _)).trans
          (undisturbed_append _ _).marks).trans (induction _ _)

theorem marks_handleDel (db : Db) (now : Nat) (name : Bytes) (args : List Bytes) :
    Marks db (db.handleDel now name args).1 := by
  unfold handleDel Keyspace.handleDel
  simp only [Keyspace.ofDb]
  match args with
  | _ :: _ :: _ => exact marks_delLoop db now name 0 _
  | [] | [_] => exact .refl

theorem marks_handleExpire (db : Db) (now : Nat) (name : Bytes) (args : List Bytes)
    (scale : Int) : Marks db (db.handleExpire now name args scale).1 := by
  unfold handleExpire Keyspace.handleExpire
  simp only [Keyspace.ofDb]
  by_cases shape : (if scale ≠ 0 then args.length < 3 else args.length ≠ 2)
  · rw [if_pos shape]
  · rw [if_neg shape]
    cases expireOptions {} (args.drop 3) with
    | error _ => exact .refl
    | ok options =>
        dsimp only
        by_cases clash : (options.nx && (options.xx || options.gt || options.lt)) = true
        · rw [if_pos clash]
        · rw [if_neg clash]
          by_cases both : (options.gt && options.lt) = true
          · rw [if_pos both]
          · rw [if_neg both]
            rcases expireDeadline now scale args with _ | ⟨n, expireAt⟩
            · exact .refl
            · generalize args[1]?.getD [] = key
              have looked := undisturbed_lookup db now name key
              rcases equal : db.lookup now name key with ⟨found, _ | record⟩
              · rw [equal] at looked
                exact looked.marks
              · dsimp only
                rw [equal] at looked
                by_cases refused : scale = 0 ∧ record.expireAt = 0 ∨
                    expireRefused options record expireAt = true
                · rw [if_pos refused]
                  exact looked.marks
                · rw [if_neg refused]
                  by_cases spent : scale ≠ 0 ∧ n ≤ 0
                  · rw [if_pos spent]
                    exact looked.marks.trans (marks_handleDel _ now name _)
                  · rw [if_neg spent]
                    exact (((looked.trans (undisturbed_clock _ _)).trans
                      (undisturbed_assign _ _ _ _ _)).trans (undisturbed_append _ _)).marks

theorem marks_handleCrdtdel (db : Db) (now : Nat) (name : Bytes) (args : List Bytes) :
    Marks db (db.handleCrdtdel now name args).1 := by
  unfold handleCrdtdel Keyspace.handleCrdtdel
  simp only [Keyspace.ofDb]
  match args with
  | [head, key, tsArg, nodeArg] =>
      dsimp only
      rcases admitted : db.incomingVersion now tsArg nodeArg with _ | ⟨observed, version⟩
      · exact .refl
      · have looked := (undisturbed_incomingVersion admitted).trans
          (undisturbed_lookup observed now name key)
        unfold deleteFrom Keyspace.deleteFrom
        simp only [Keyspace.ofDb]
        by_cases stale :
            (observed.lookup now name key).1.stale name key (observed.lookup now name key).2 version =
            true
        · rw [if_pos stale]
          exact looked.marks
        · rw [if_neg stale]
          refine ((looked.trans ?_).marks.trans (marks_setTomb _ _ _ _)).trans
            (undisturbed_append _ _).marks
          by_cases present : (observed.lookup now name key).2.isSome = true
          · rw [if_pos present]
            exact undisturbed_erase _ name key
          · rw [if_neg present]
            exact .refl
  | [] | [_] | [_, _] | [_, _, _] | _ :: _ :: _ :: _ :: _ :: _ => exact .refl

/-! ## Reads -/

theorem undisturbed_mgetLoop (db : Db) (now : Nat) (resp3 : Bool) (name out : Bytes)
    (keys : List Bytes) : Undisturbed db (db.mgetLoop now resp3 name out keys).1 := by
  induction keys generalizing db out with
  | nil => exact .refl
  | cons key rest induction =>
      have looked := undisturbed_lookup db now name key
      unfold mgetLoop Keyspace.mgetLoop
      simp only [Keyspace.ofDb]
      rcases equal : db.lookup now name key with ⟨found, _ | record⟩
      · rw [equal] at looked
        exact looked.trans (induction _ _)
      · dsimp only
        rw [equal] at looked
        by_cases long : maxReply < out.length + record.value.length
        · rw [if_pos long]
          exact looked
        · rw [if_neg long]
          exact looked.trans (induction _ _)

theorem undisturbed_existsLoop (db : Db) (now : Nat) (name : Bytes) (count : Nat)
    (keys : List Bytes) : Undisturbed db (db.existsLoop now name count keys).1 := by
  induction keys generalizing db count with
  | nil => exact .refl
  | cons key rest induction =>
      exact (undisturbed_lookup db now name key).trans (induction _ _)

theorem undisturbed_handleTtl (db : Db) (now : Nat) (name : Bytes) (args : List Bytes)
    (millis : Bool) : Undisturbed db (db.handleTtl now name args millis).1 := by
  unfold handleTtl Keyspace.handleTtl
  simp only [Keyspace.ofDb]
  match args with
  | [head, key] =>
      dsimp only
      have looked := undisturbed_lookup db now name key
      rcases equal : db.lookup now name key with ⟨found, _ | record⟩
      · rw [equal] at looked
        exact looked
      · dsimp only
        rw [equal] at looked
        by_cases same : record.expireAt = 0
        · rw [if_pos same]
          exact looked
        · rw [if_neg same]
          exact looked
  | [] | [_] | _ :: _ :: _ :: _ => exact .refl

/-- A command that runs in a room marks keys or clears their tombstones, not both. -/
theorem graves_runInRoom (db : Db) (now : Nat) (resp3 : Bool) (name : Bytes)
    (args : List Bytes) (kind : RoomCommand) :
    Marks db (db.runInRoom now resp3 name args kind).1 ∨
      Clears db (db.runInRoom now resp3 name args kind).1 := by
  cases kind with
  | get =>
      refine .inl (Undisturbed.marks ?_)
      change Undisturbed db (db.handleGet now resp3 name args).1
      unfold handleGet Keyspace.handleGet
      simp only [Keyspace.ofDb]
      match args with
      | [_, _] => exact undisturbed_lookup db now name _
      | [] | [_] | _ :: _ :: _ :: _ => exact .refl
  | set => exact .inr (clears_handleSet db now resp3 name args)
  | del => exact .inl (marks_handleDel db now name args)
  | crdtmerge => exact .inr (clears_handleCrdtmerge db now name args)
  | crdtdel => exact .inl (marks_handleCrdtdel db now name args)
  | mget =>
      refine .inl (Undisturbed.marks ?_)
      change Undisturbed db (db.handleMget now resp3 name args).1
      unfold handleMget Keyspace.handleMget
      simp only [Keyspace.ofDb]
      match args with
      | _ :: _ :: _ => exact undisturbed_mgetLoop db now resp3 name _ _
      | [] | [_] => exact .refl
  | mset => exact .inr (clears_handleMset db now name args)
  | exist =>
      refine .inl (Undisturbed.marks ?_)
      change Undisturbed db (db.handleExists now name args).1
      unfold handleExists Keyspace.handleExists
      simp only [Keyspace.ofDb]
      match args with
      | _ :: _ :: _ => exact undisturbed_existsLoop db now name 0 _
      | [] | [_] => exact .refl
  | expire => exact .inl (marks_handleExpire db now name args 1000)
  | pexpire => exact .inl (marks_handleExpire db now name args 1)
  | persist => exact .inl (marks_handleExpire db now name args 0)
  | ttl => exact .inl (undisturbed_handleTtl db now name args false).marks
  | pttl => exact .inl (undisturbed_handleTtl db now name args true).marks
  | save => exact .inl .refl
  | unknown => exact .inl .refl

/-! ## Rooms and the log -/

theorem undisturbed_evictDespisedKeys (db : Db) (name : Bytes) (victims : List Bytes) :
    Undisturbed db (db.evictDespisedKeys name victims) := by
  induction victims generalizing db with
  | nil => exact .refl
  | cons victim rest induction =>
      unfold evictDespisedKeys
      dsimp only
      by_cases within : (db.keysOf name).entries = [] ∨
          (db.keysOf name).toPairs.length ≤ db.config.maxKeys ∧ db.fits 0 = true
      · rw [if_pos within]
        exact .refl
      · rw [if_neg within]
        cases (db.keysOf name).lookup victim with
        | none => exact induction db
        | some _ =>
            refine Undisturbed.trans ?_ (induction _)
            exact ⟨rfl, rfl, rfl, rfl, rfl⟩

theorem undisturbed_findRoom (db : Db) (name : Bytes) : Undisturbed db (db.findRoom name) := by
  unfold findRoom
  by_cases known : name ∈ db.rooms
  · rw [if_pos known]
    exact .refl
  · rw [if_neg known]
    exact ⟨rfl, rfl, rfl, rfl, rfl⟩

theorem undisturbed_activate (db : Db) (now : Nat) (name : Bytes) (overBudget : Bool) :
    Undisturbed db (db.activate now name overBudget).1 := by
  unfold activate
  dsimp only
  by_cases awake : (db.room name).state = .active
  · rw [if_pos awake]
    exact ⟨rfl, rfl, rfl, rfl, rfl⟩
  · rw [if_neg awake]
    by_cases full : maxActiveRooms ≤ db.activeRooms ∧ (!overBudget) = true
    · rw [if_pos full]
      exact ⟨rfl, rfl, rfl, rfl, rfl⟩
    · rw [if_neg full]
      split <;> exact ⟨rfl, rfl, rfl, rfl, rfl⟩

theorem undisturbed_hibernate (db : Db) (name : Bytes) : Undisturbed db (db.hibernate name) := by
  unfold hibernate
  dsimp only
  by_cases asleep : (db.room name).state = .sleeping
  · rw [if_pos asleep]
    exact .refl
  · rw [if_neg asleep]
    exact ⟨rfl, rfl, rfl, rfl, rfl⟩

theorem undisturbed_hibernateFailed (db : Db) (name : Bytes) :
    Undisturbed db (db.hibernateFailed name) := by
  unfold hibernateFailed
  dsimp only
  by_cases asleep : (db.room name).state = .sleeping
  · rw [if_pos asleep]
    exact .refl
  · rw [if_neg asleep]
    exact ⟨rfl, rfl, rfl, rfl, rfl⟩

theorem undisturbed_hibernateInactive (db : Db) (now : Nat) (name : Bytes) :
    Undisturbed db (db.hibernateInactive now name) := by
  unfold hibernateInactive
  dsimp only
  by_cases idle : (db.room name).state = .active ∧ name ≠ defaultRoom ∧
      (db.room name).lastAccessTime + roomIdleMs < now
  · rw [if_pos idle]
    exact undisturbed_hibernate db name
  · rw [if_neg idle]
    exact .refl

theorem undisturbed_cleanExpiredKeys (db : Db) (now : Nat) (name : Bytes) :
    Undisturbed db (db.cleanExpiredKeys now name) := by
  unfold cleanExpiredKeys
  by_cases unknown : name ∉ db.rooms
  · rw [if_pos unknown]
    exact .refl
  · rw [if_neg unknown]
    exact ⟨rfl, rfl, rfl, rfl, rfl⟩

theorem undisturbed_setClientRoom (db : Db) (clientFd : Nat) (name : Bytes) :
    Undisturbed db (db.setClientRoom clientFd name) :=
  ⟨rfl, rfl, rfl, rfl, rfl⟩

theorem undisturbed_wakeRoom (db : Db) (now : Nat) (name : Bytes) :
    Undisturbed db (db.wakeRoom now name).1 := by
  unfold wakeRoom
  by_cases invalid : (!validRoomName name) = true
  · rw [if_pos invalid]
    exact .refl
  · rw [if_neg invalid]
    by_cases crowded : name ∉ db.rooms ∧ db.config.maxRooms ≤ db.rooms.toPairs.length
    · rw [if_pos crowded]
      exact .refl
    · rw [if_neg crowded]
      exact (undisturbed_findRoom db name).trans (undisturbed_activate _ now name false)

theorem undisturbed_handleRoom (db : Db) (now clientFd : Nat) (args : List Bytes) :
    Undisturbed db (db.handleRoom now clientFd args).1 := by
  unfold handleRoom
  match args with
  | [_, name] =>
      dsimp only
      have woken := undisturbed_wakeRoom db now name
      rcases equal : db.wakeRoom now name with ⟨_, _ | _⟩
      · rw [equal] at woken
        exact woken.trans (undisturbed_setClientRoom _ _ _)
      · rw [equal] at woken
        exact woken
  | [] | [_] | _ :: _ :: _ :: _ => exact .refl

theorem undisturbed_handleRoomAdmin (db : Db) (now : Nat) (resp3 : Bool) (command : Bytes)
    (args : List Bytes) : Undisturbed db (db.handleRoomAdmin now resp3 command args).1 := by
  unfold handleRoomAdmin
  by_cases isRooms : command = ascii "ROOMS"
  · rw [if_pos isRooms]
    exact .refl
  · rw [if_neg isRooms]
    match args with
    | [head, name] =>
        dsimp only
        by_cases isWake : command = ascii "ROOM.WAKE"
        · rw [if_pos isWake]
          exact undisturbed_wakeRoom db now name
        · rw [if_neg isWake]
          by_cases unknown : name ∉ db.rooms
          · rw [if_pos unknown]
            exact .refl
          · rw [if_neg unknown]
            by_cases isHibernate : command = ascii "ROOM.HIBERNATE"
            · rw [if_pos isHibernate]
              by_cases same : name = defaultRoom
              · rw [if_pos same]
                exact .refl
              · rw [if_neg same]
                exact undisturbed_hibernate db name
            · rw [if_neg isHibernate]
              by_cases isInfo : command = ascii "ROOM.INFO"
              · rw [if_pos isInfo]
                exact .refl
              · rw [if_neg isInfo]
                exact .refl
    | [] | [_] | _ :: _ :: _ :: _ => exact .refl

theorem undisturbed_startBackgroundRewrite (db : Db) :
    Undisturbed db db.startBackgroundRewrite.1 := by
  unfold startBackgroundRewrite
  cases db.rewriteChild with
  | some child => exact .refl
  | none => exact ⟨rfl, rfl, rfl, rfl, rfl⟩

theorem undisturbed_finishBackgroundRewrite (db : Db) :
    Undisturbed db db.finishBackgroundRewrite := by
  rcases finishBackgroundRewrite_cases db with same | ⟨_, _, _, ⟨_, dropped⟩ | ⟨_, committed⟩⟩
  · rw [same]
    exact .refl
  · rw [dropped]
    exact ⟨rfl, rfl, rfl, rfl, rfl⟩
  · rw [committed]
    exact ⟨rfl, rfl, rfl, rfl, rfl⟩

theorem undisturbed_beginCommand (db : Db) (call : Call) :
    Undisturbed db (db.beginCommand call) := by
  rcases beginCommand_cases db call with same | ⟨_, started⟩
  · rw [same]
    exact undisturbed_finishBackgroundRewrite db
  · rw [started]
    exact (undisturbed_finishBackgroundRewrite db).trans (undisturbed_startBackgroundRewrite _)

theorem undisturbed_childStep (db : Db) (now : Nat) : Undisturbed db (db.childStep now) := by
  rcases childStep_fields db now with ⟨_, _, fields, _⟩
  rw [fields]
  exact ⟨rfl, rfl, rfl, rfl, rfl⟩

/-! ## Replay -/

/-- A replayed write leaves the tombstone of its key alone. -/
theorem undisturbed_replayPut (db : Db) (record : AofRecord) (key value : Bytes)
    (ts node : Nat) : Undisturbed db (db.replayPut record key value ts node) := by
  unfold replayPut
  cases (db.keysOf record.room).lookup key <;> exact ⟨rfl, rfl, rfl, rfl, rfl⟩

theorem marks_replayCommand (db : Db) (record : AofRecord) (command : Bytes) :
    Marks db (db.replayCommand record command) := by
  unfold replayCommand
  dsimp only
  by_cases merges : command = ascii "CRDTMERGE" ∧ 5 ≤ record.args.length
  · rw [if_pos merges]
    split
    · split
      · exact .refl
      · exact (undisturbed_replayPut db record _ _ _ _).marks
    · exact .refl
  · rw [if_neg merges]
    by_cases sets : command = ascii "SET" ∧ 3 ≤ record.args.length
    · rw [if_pos sets]
      exact (undisturbed_replayPut db record _ _ _ _).marks
    · rw [if_neg sets]
      by_cases isMset : command = ascii "MSET"
      · rw [if_pos isMset]
        induction pairsOf record.args.tail generalizing db with
        | nil => exact .refl
        | cons pair rest induction =>
            exact (undisturbed_replayPut db record _ _ _ _).marks.trans (induction _)
      · rw [if_neg isMset]
        by_cases expires : (command = ascii "EXPIRE" ∨ command = ascii "PEXPIRE" ∨
            command = ascii "PERSIST") ∧ 2 ≤ record.args.length
        · rw [if_pos expires]
          unfold replayDeadline
          cases (db.keysOf record.room).lookup (record.args[1]?.getD []) with
          | none => exact .refl
          | some _ => exact (undisturbed_assign db _ _ _ _).marks
        · rw [if_neg expires]
          by_cases deletes : command = ascii "DEL" ∧ 2 ≤ record.args.length ∨
              command = ascii "CRDTDEL" ∧ 4 ≤ record.args.length
          · rw [if_pos deletes]
            exact ((undisturbed_erase db _ _).marks.trans (marks_setTomb _ _ _ _)).trans
              (undisturbed_clock _ _).marks
          · rw [if_neg deletes]

theorem marks_replayRecord (db : Db) (now : Nat) (record : AofRecord) :
    Marks db (replayRecord now db record) := by
  unfold replayRecord
  cases record.args with
  | nil => exact .refl
  | cons _ _ =>
      exact ((undisturbed_findRoom db _).trans (undisturbed_activate _ now _ true)).marks.trans
        (marks_replayCommand _ record _)

/-! ## Commands -/

theorem graves_executeInRoom (db : Db) (call : Call) (name : Bytes) (kind : RoomCommand) :
    Marks db (db.executeInRoom call name kind).1 ∨ Clears db (db.executeInRoom call name kind).1 := by
  have opened := (undisturbed_findRoom db name).trans
    (undisturbed_activate _ call.now name false)
  unfold executeInRoom executeInRoomWith
  dsimp only
  rcases equal : (db.findRoom name).activate call.now name false with ⟨woken, _ | _⟩
  · rw [equal] at opened
    exact .inl opened.marks
  · rw [equal] at opened
    have evicted := undisturbed_evictDespisedKeys
      (woken.runInRoom call.now call.resp3 name call.args kind).1 name call.victims
    rcases graves_runInRoom woken call.now call.resp3 name call.args kind with marks | clears
    · exact .inl ((opened.marks.trans marks).trans evicted.marks)
    · exact .inr ((opened.clears.trans clears).trans evicted.clears)

/-- What a connection command other than `REPLFRONTIER` does. -/
theorem undisturbed_runConnection (db : Db) (call : Call) (name : Bytes)
    {kind : ConnectionCommand} (other : kind ≠ .replfrontier) :
    Undisturbed db (db.runConnection call name kind).1 := by
  cases kind with
  | ping => exact .refl
  | echo => exact .refl
  | command => exact .refl
  | room => exact undisturbed_handleRoom db _ _ _
  | rooms => exact undisturbed_handleRoomAdmin db _ _ name _
  | replfrontier => exact absurd rfl other
  | rewriteaof => exact undisturbed_startBackgroundRewrite db
  | compact => exact ⟨rfl, rfl, rfl, rfl, rfl⟩

end Db

end SomniumDB
