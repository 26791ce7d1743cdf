import SomniumDB.Abstract.Refinement
import SomniumDB.Core.Execute

/-! # Every command refines the steps of a node

Waking and hibernating rooms, eviction and compaction move records between
media; what a command does to the logical content is a run of steps. -/

namespace SomniumDB

open Bytes FsUtil

namespace Db

/-- A run of steps that writes no snapshot file and leaves a background
rewrite alone. -/
structure Kept (now : Nat) (db after : Db) : Prop where
  steps : Node.Steps db.config now db.node after.node
  wellFormed : after.WellFormed
  config : after.config = db.config
  snapshots : after.snapshots = db.snapshots
  rewriteChild : after.rewriteChild = db.rewriteChild
  rewriteFrom : after.rewriteFrom = db.rewriteFrom
  registered : ∀ name, name ∈ db.rooms → name ∈ after.rooms
  logged : ∀ record ∈ after.aof, record ∈ db.aof ∨ record.room ∈ after.rooms

variable {now : Nat} {db : Db} {name : Bytes}

theorem Kept.refl (wellFormed : db.WellFormed) : Kept now db db :=
  ⟨.refl, wellFormed, rfl, rfl, rfl, rfl, fun _ => id, fun _ member => .inl member⟩

theorem Kept.trans {second third : Db} (left : Kept now db second)
    (right : Kept now second third) : Kept now db third where
  steps := by
    refine left.steps.trans ?_
    rw [← left.config]
    exact right.steps
  wellFormed := right.wellFormed
  config := right.config.trans left.config
  snapshots := right.snapshots.trans left.snapshots
  rewriteChild := right.rewriteChild.trans left.rewriteChild
  rewriteFrom := right.rewriteFrom.trans left.rewriteFrom
  registered other member := right.registered other (left.registered other member)
  logged record member := by
    rcases right.logged record member with earlier | present
    · rcases left.logged record earlier with first | present
      · exact .inl first
      · exact .inr (right.registered _ present)
    · exact .inr present

theorem Serves.kept {after : Db} (served : Serves Node.Step now db after) :
    Kept now db after where
  steps := served.steps
  wellFormed := served.wellFormed
  config := served.frame.config
  snapshots := served.frame.snapshots
  rewriteChild := served.frame.rewriteChild
  rewriteFrom := served.frame.rewriteFrom
  registered other := (served.frame.registered other).mpr
  logged record member := by
    rcases served.logged record member with earlier | awake
    · exact .inl earlier
    · exact .inr ((served.frame.registered _).mpr awake.registered)

/-! ## Waking a room -/

/-- What a room holds outside cold storage, given its snapshot file. -/
def residentOf (room : Room) (file : Option (FiniteMap Bytes Record)) :
    FiniteMap Bytes Record :=
  match room.state with
  | .active => room.keys
  | .sleeping => (file.map (·.mapValues Record.normalized)).getD ∅

theorem resident_eq (db : Db) (name : Bytes) :
    db.resident name = residentOf (db.room name) (db.snapshots.lookup name) := by
  unfold resident residentOf
  cases (db.room name).state with
  | sleeping => simp_all
  | active => simp_all [keysOf]

/-- One room is replaced by another with the same records. -/
theorem kept_setRoom (now : Nat) (name : Bytes) (after : Db) (wellFormed : db.WellFormed)
    (room : Room) (rooms : after.rooms = db.rooms.insert name room)
    (same : residentOf room (db.snapshots.lookup name) = db.resident name)
    (asleep : room.state = .sleeping → room.keys = ∅)
    (fields : after = { db with rooms := after.rooms, activeRooms := after.activeRooms,
                                metrics := after.metrics }) :
    Kept now db after ∧ after.node = db.node ∧
      ∀ other, after.room other = if other = name then room else db.room other := by
  have rooms' : ∀ other, after.room other =
      if other = name then room else db.room other := by
    intro other
    simp only [Db.room, rooms, FiniteMap.lookup_insert_if]
    by_cases here : other = name <;> simp [here]
  have snapshots : after.snapshots = db.snapshots := by rw [fields]
  have cold : after.cold = db.cold := by rw [fields]
  have residents : ∀ other, after.resident other = db.resident other := by
    intro other
    rw [resident_eq, rooms', snapshots]
    by_cases here : other = name
    · subst other
      rw [if_pos rfl, same]
    · rw [if_neg here, resident_eq]
  have sameNode : after.node = db.node := by
    have sameHeld : after.held = db.held := by
      funext place
      simp only [held, residents, cold]
    rw [fields] at sameHeld ⊢
    apply Node.ext <;> first | exact sameHeld | rfl
  have log : after.aof = db.aof := by rw [fields]
  refine ⟨⟨?_, ⟨?_, ?_⟩, by rw [fields], snapshots, by rw [fields], by rw [fields], ?_, ?_⟩,
    sameNode, rooms'⟩
  · rw [sameNode]
  · intro other key record found
    rw [residents] at found
    rw [cold]
    exact wellFormed.exclusive other key record found
  · intro other sleeping
    rw [keysOf, rooms'] at *
    by_cases here : other = name
    · rw [if_pos here] at sleeping ⊢
      exact asleep sleeping
    · rw [if_neg here] at sleeping ⊢
      exact wellFormed.asleep other sleeping
  · intro other member
    rw [rooms, AList.mem_insert]
    exact .inr member
  · intro record member
    exact .inl (log ▸ member)

/-- The registry changes and nothing else that a client can see. -/
structure Rearranged (db after : Db) : Prop where
  node : after.node = db.node
  fields : after = { db with rooms := after.rooms, activeRooms := after.activeRooms,
                             metrics := after.metrics }

theorem Rearranged.trans {second third : Db} (left : Rearranged db second)
    (right : Rearranged second third) : Rearranged db third := by
  refine ⟨right.node.trans left.node, ?_⟩
  rw [right.fields, left.fields]

theorem room_of_not_mem (absent : name ∉ db.rooms) : db.room name = {} := by
  have missing : db.rooms.lookup name = none := AList.lookup_eq_none.mpr absent
  rw [Db.room, missing]
  rfl

/-- A room that is registered by being looked up is asleep and empty, as before. -/
theorem mem_findRoom (db : Db) (name other : Bytes) :
    other ∈ (db.findRoom name).rooms ↔ other = name ∨ other ∈ db.rooms := by
  unfold findRoom
  by_cases registered : name ∈ db.rooms
  · rw [if_pos registered]
    refine ⟨.inr, fun member => ?_⟩
    rcases member with rfl | member
    · exact registered
    · exact member
  · rw [if_neg registered]
    exact AList.mem_insert _

theorem room_findRoom (db : Db) (name other : Bytes) :
    (db.findRoom name).room other = db.room other := by
  unfold findRoom
  by_cases known : name ∈ db.rooms
  · rw [if_pos known]
  · rw [if_neg known]
    simp only [Db.room, setRoom, FiniteMap.lookup_insert_if]
    by_cases here : other = name
    · rw [if_pos here]
      rw [here, AList.lookup_eq_none.mpr known]
      rfl
    · rw [if_neg here]

theorem findRoom_spec (wellFormed : db.WellFormed) (now : Nat) (name : Bytes) :
    Kept now db (db.findRoom name) ∧ Rearranged db (db.findRoom name) ∧
      ∀ other, (db.findRoom name).room other = db.room other := by
  refine ⟨?_, ?_, db.room_findRoom name⟩ <;> unfold findRoom <;> split
  · exact Kept.refl wellFormed
  · rename_i absent
    exact (kept_setRoom now name (db.setRoom name {}) wellFormed {} rfl
      (by rw [resident_eq, room_of_not_mem absent]) (fun _ => rfl) rfl).1
  · exact ⟨rfl, rfl⟩
  · rename_i absent
    exact ⟨(kept_setRoom now name (db.setRoom name {}) wellFormed {} rfl
      (by rw [resident_eq, room_of_not_mem absent]) (fun _ => rfl) rfl).2.1, rfl⟩

theorem wakeupRoom_eq (wellFormed : db.WellFormed)
    (sleeping : (db.room name).state = .sleeping) :
    db.wakeupRoom name = db.resident name := by
  unfold wakeupRoom
  rw [resident_eq, residentOf, sleeping]
  cases db.snapshots.lookup name with
  | none => exact wellFormed.asleep name sleeping
  | some file => rfl

/-- `activate` never changes the content; when it succeeds the room is awake. -/
theorem activate_spec (wellFormed : db.WellFormed) (now : Nat) (name : Bytes)
    (overBudget : Bool) :
    Kept now db (db.activate now name overBudget).1 ∧
      Rearranged db (db.activate now name overBudget).1 ∧
      ((db.activate now name overBudget).2 = true →
        (db.activate now name overBudget).1.Awake name) ∧
      ∀ other, other ≠ name →
        (db.activate now name overBudget).1.room other = db.room other := by
  have touchedKeys : (db.room name).state = .sleeping → (db.room name).keys = ∅ :=
    wellFormed.asleep name
  unfold activate
  dsimp only
  by_cases active : (db.room name).state = .active
  · rw [if_pos active]
    obtain ⟨kept, node, rooms⟩ := kept_setRoom now name
      (db.setRoom name { db.room name with lastAccessTime := now }) wellFormed
      { db.room name with lastAccessTime := now } rfl
      (by rw [resident_eq]; rfl) touchedKeys rfl
    refine ⟨kept, ⟨node, rfl⟩, ?_, fun other different => by rw [rooms, if_neg different]⟩
    intro _
    rw [Awake, rooms, if_pos rfl]
    exact active
  · rw [if_neg active]
    have sleeping : (db.room name).state = .sleeping := by
      cases state : (db.room name).state with
      | sleeping => rfl
      | active => exact absurd state active
    by_cases full : maxActiveRooms ≤ db.activeRooms ∧ (!overBudget) = true
    · rw [if_pos full]
      obtain ⟨kept, node, rooms⟩ := kept_setRoom now name
        (db.setRoom name { db.room name with lastAccessTime := now }) wellFormed
        { db.room name with lastAccessTime := now } rfl
        (by rw [resident_eq]; rfl) touchedKeys rfl
      exact ⟨kept, ⟨node, rfl⟩, by simp,
        fun other different => by rw [rooms, if_neg different]⟩
    · rw [if_neg full]
      split
      · obtain ⟨kept, node, rooms⟩ := kept_setRoom now name
          (db.setRoom name
            { db.room name with lastAccessTime := now, keys := ∅ }) wellFormed
          { db.room name with lastAccessTime := now, keys := ∅ } rfl
          (by rw [resident_eq, residentOf, residentOf, sleeping]) (fun _ => rfl) rfl
        exact ⟨kept, ⟨node, rfl⟩, by simp,
          fun other different => by rw [rooms, if_neg different]⟩
      · generalize keysEq : db.wakeupRoom name = keys
        rw [wakeupRoom_eq wellFormed sleeping] at keysEq
        generalize Room.keysCost _ = cost
        obtain ⟨kept, node, rooms⟩ := kept_setRoom now name
          { db with
            rooms := db.rooms.insert name
              { db.room name with
                lastAccessTime := now, keys
                bytes := (db.room name).bytes + cost
                state := .active }
            activeRooms := db.activeRooms + 1
            metrics := { db.metrics with
              keysInRam := db.metrics.keysInRam + keys.toPairs.length
              residentBytes := db.metrics.residentBytes + cost } } wellFormed
          { db.room name with
            lastAccessTime := now, keys
            bytes := (db.room name).bytes + cost
            state := .active } rfl keysEq.symm (by simp) rfl
        refine ⟨kept, ⟨node, rfl⟩, ?_,
          fun other different => by rw [rooms, if_neg different]⟩
        intro _
        rw [Awake, rooms, if_pos rfl]

/-- A room that has just been looked up or created is activated. -/
theorem open_spec (wellFormed : db.WellFormed) (now : Nat) (name : Bytes) :
    Kept now db ((db.findRoom name).activate now name false).1 ∧
      Rearranged db ((db.findRoom name).activate now name false).1 ∧
      (((db.findRoom name).activate now name false).2 = true →
        ((db.findRoom name).activate now name false).1.Awake name) := by
  rcases findRoom_spec wellFormed now name with ⟨found, rearranged, _⟩
  rcases activate_spec found.wellFormed now name false with ⟨kept, again, awake, _⟩
  exact ⟨found.trans kept, rearranged.trans again, awake⟩

theorem wakeRoom_spec (wellFormed : db.WellFormed) (now : Nat) (name : Bytes) :
    Kept now db (db.wakeRoom now name).1 ∧ Rearranged db (db.wakeRoom now name).1 := by
  unfold wakeRoom
  by_cases invalid : (!validRoomName name) = true
  · rw [if_pos invalid]
    exact ⟨Kept.refl wellFormed, ⟨rfl, rfl⟩⟩
  · rw [if_neg invalid]
    by_cases crowded : name ∉ db.rooms ∧ db.config.maxRooms ≤ db.rooms.toPairs.length
    · rw [if_pos crowded]
      exact ⟨Kept.refl wellFormed, ⟨rfl, rfl⟩⟩
    · rw [if_neg crowded]
      rcases open_spec wellFormed now name with ⟨kept, rearranged, _⟩
      exact ⟨kept, rearranged⟩

/-! ## Clients -/

theorem kept_setClientRoom (wellFormed : db.WellFormed) (clientFd : Nat) (name : Bytes) :
    Kept now db (db.setClientRoom clientFd name) :=
  ⟨.refl, ⟨wellFormed.exclusive, wellFormed.asleep⟩, rfl, rfl, rfl, rfl,
    fun _ => id, fun _ member => .inl member⟩

theorem kept_handleRoom (wellFormed : db.WellFormed) (clientFd : Nat)
    (args : List Bytes) : Kept now db (db.handleRoom now clientFd args).1 := by
  unfold handleRoom
  match args with
  | [_, name] =>
      dsimp only
      rcases wakeRoom_spec wellFormed now name with ⟨kept, _⟩
      rcases equal : db.wakeRoom now name with ⟨_, _ | _⟩
      · rw [equal] at kept
        exact kept.trans (kept_setClientRoom kept.wellFormed clientFd name)
      · rw [equal] at kept
        exact kept
  | [] | [_] | _ :: _ :: _ :: _ => exact Kept.refl wellFormed

/-! ## Eviction, compaction and expiry -/

/-- A record moves from RAM to cold storage. -/
theorem acts_evict (wellFormed : db.WellFormed) (awake : db.Awake name) {victim : Bytes}
    {record : Record} (ram : (db.keysOf name).lookup victim = some record) (size : Nat)
    (delta count : Int) :
    Acts db ({ db with
        cold := db.cold.set name victim record
        coldFileBytes := size }.putKeys name ((db.keysOf name).erase victim) delta count)
      db.node := by
  have stored : Frame db
      { db with cold := db.cold.set name victim record, coldFileBytes := size } :=
    ⟨rfl, rfl, rfl, rfl, rfl, rfl, rfl, fun _ => .rfl, fun _ => rfl, fun _ _ => rfl⟩
  have framed := stored.trans
    (frame_putKeys ((db.keysOf name).erase victim) delta count (stored.awake awake))
  have residents :=
    resident_putKeys ((db.keysOf name).erase victim) delta count (stored.awake awake)
  refine ⟨?_, ⟨?_, ?_⟩, framed⟩
  · apply Node.ext <;> try rfl
    funext place
    rcases place with ⟨room, key⟩
    change ((_ : FiniteMap Bytes Record).lookup key).or
      ((db.cold.set name victim record).find room key) = db.held (room, key)
    rw [residents, NestedMap.find_set]
    by_cases sameRoom : room = name
    · subst room
      rw [if_pos rfl, FiniteMap.lookup_erase_if, held, resident_of_awake awake]
      by_cases sameKey : key = victim
      · subst key
        simp [ram]
      · simp [sameKey]
    · rw [if_neg sameRoom, if_neg (by simp [sameRoom])]
      rfl
  · intro room key held found
    change (db.cold.set name victim record).find room key = none
    rw [residents] at found
    rw [NestedMap.find_set]
    by_cases sameRoom : room = name
    · subst room
      rw [if_pos rfl, FiniteMap.lookup_erase_if] at found
      by_cases sameKey : key = victim
      · simp [sameKey] at found
      · rw [if_neg sameKey] at found
        rw [if_neg (by simp [sameKey])]
        exact wellFormed.exclusive name key held (by rw [resident_of_awake awake, found])
    · rw [if_neg sameRoom] at found
      rw [if_neg (by simp [sameRoom])]
      exact wellFormed.exclusive room key held found
  · intro other sleeping
    have before : (db.room other).state = .sleeping := (framed.state other).symm.trans sleeping
    rw [keysOf, framed.asleep other before]
    exact wellFormed.asleep other before

theorem acts_evictDespisedKeys (wellFormed : db.WellFormed) (awake : db.Awake name)
    (victims : List Bytes) : Acts db (db.evictDespisedKeys name victims) db.node := by
  induction victims generalizing db with
  | nil => exact Acts.refl wellFormed
  | cons victim rest induction =>
      unfold evictDespisedKeys
      dsimp only
      by_cases within : (db.keysOf name).entries = [] ∨
          (db.keysOf name).toPairs.length ≤ db.config.maxKeys ∧ db.fits 0 = true
      · rw [if_pos within]
        exact Acts.refl wellFormed
      · rw [if_neg within]
        cases ram : (db.keysOf name).lookup victim with
        | none => exact induction wellFormed awake
        | some record =>
            have evicted := acts_evict wellFormed awake ram
              (db.coldFileBytes + coldSize record) (-recordCost victim record) (-1)
            have looped := induction evicted.wellFormed (evicted.frame.awake awake)
            rw [evicted.node] at looped
            exact evicted.trans looped

theorem serves_evictDespisedKeys (wellFormed : db.WellFormed) (awake : db.Awake name)
    (victims : List Bytes) :
    Serves Node.Step now db (db.evictDespisedKeys name victims) :=
  (acts_evictDespisedKeys wellFormed awake victims).serves_quiet .refl rfl

/-- The removal of expired records from any medium. -/
theorem kept_settle {after : Db}
    (settles : ∀ place, Node.Settles now (db.held place) (after.held place))
    (wellFormed : after.WellFormed)
    (rooms : ∀ name, name ∈ db.rooms → name ∈ after.rooms)
    (fields : after = { db with rooms := after.rooms, metrics := after.metrics,
                                cold := after.cold, coldFileBytes := after.coldFileBytes }) :
    Kept now db after := by
  have sameNode : after.node = { db.node with held := after.held } := by
    rw [fields]
    rfl
  refine ⟨?_, wellFormed, by rw [fields], by rw [fields], by rw [fields], by rw [fields],
    rooms, ?_⟩
  · rw [sameNode]
    exact .single (.own (.settle after.held settles))
  · intro record member
    rw [fields] at member
    exact .inl member

theorem kept_compact (wellFormed : db.WellFormed) (now : Nat) :
    Kept now db (db.compact now).1 := by
  have residents : ∀ name, (db.compact now).1.resident name = db.resident name :=
    fun _ => rfl
  have cold : ∀ name key, (db.compact now).1.cold.find name key =
      (db.cold.find name key).filter fun record => !record.expired now := by
    intro name key
    exact NestedMap.find_filter _ db.cold name key
  apply kept_settle
  · intro place
    simp only [held, residents, cold]
    cases (db.resident place.1).lookup place.2 with
    | some record => exact .inl rfl
    | none =>
        simp only [Option.none_or]
        exact (Node.drops_filter now _).settles
  · refine ⟨?_, wellFormed.asleep⟩
    intro name key record found
    rw [cold, wellFormed.exclusive name key record found]
    rfl
  · exact fun _ => id
  · rfl

/-- The records that the watchdog keeps in RAM. -/
theorem lookup_unexpired (keys : FiniteMap Bytes Record) (now : Nat) (key : Bytes) :
    (keys.filter fun _ record => !record.expired now).lookup key =
      (keys.lookup key).filter fun record => !record.expired now :=
  FiniteMap.lookup_filter _ keys key

/-- A sleeping room has nothing in RAM that the watchdog could remove. -/
theorem kept_expire_asleep (wellFormed : db.WellFormed) (now : Nat)
    (asleep : (db.room name).state = .sleeping) (delta count : Int) :
    let after := db.putKeys name
      ((db.keysOf name).filter fun _ record => !record.expired now) delta count
    Kept now db after ∧ after.node = db.node := by
  have nothing : (db.keysOf name).filter (fun _ record => !record.expired now) = ∅ := by
    rw [wellFormed.asleep name asleep]
    rfl
  rw [nothing]
  have replaced := kept_setRoom now name (db.putKeys name ∅ delta count) wellFormed _ rfl
    (by rw [resident_eq, residentOf, residentOf, asleep]) (fun _ => rfl) rfl
  exact ⟨replaced.1, replaced.2.1⟩

/-- The watchdog removes expired records from RAM. -/
theorem drops_expire (wellFormed : db.WellFormed) (now : Nat) (name : Bytes)
    (delta count : Int) (place : Place) :
    Node.Drops now (db.held place) ((db.putKeys name
      ((db.keysOf name).filter fun _ record => !record.expired now) delta count).held
        place) := by
  cases state : (db.room name).state with
  | active =>
      rcases place with ⟨room, key⟩
      have residents := resident_putKeys
        ((db.keysOf name).filter fun _ record => !record.expired now) delta count state
      change Node.Drops now (db.held (room, key))
        ((_ : FiniteMap Bytes Record).lookup key |>.or (db.cold.find room key))
      rw [residents, held]
      by_cases here : room = name
      · subst room
        rw [if_pos rfl, lookup_unexpired, resident_of_awake state]
        cases ram : (db.keysOf name).lookup key with
        | none => exact .inl rfl
        | some record =>
            have cold := wellFormed.exclusive name key record
              (by rw [resident_of_awake state, ram])
            simp only [cold, Option.or_none]
            exact Node.drops_filter now _
      · rw [if_neg here]
        exact .inl rfl
  | sleeping =>
      have same := (kept_expire_asleep wellFormed now state delta count).2
      exact .inl (congrFun (congrArg Node.held same) place)

theorem kept_expire (wellFormed : db.WellFormed) (now : Nat) (name : Bytes)
    (delta count : Int) :
    Kept now db (db.putKeys name
      ((db.keysOf name).filter fun _ record => !record.expired now) delta count) := by
  have registered : ∀ other, other ∈ db.rooms → other ∈ (db.putKeys name
      ((db.keysOf name).filter fun _ record => !record.expired now) delta count).rooms := by
    intro other member
    simp only [putKeys, AList.mem_insert]
    exact .inr member
  cases state : (db.room name).state with
  | active =>
      have residents := resident_putKeys
        ((db.keysOf name).filter fun _ record => !record.expired now) delta count state
      refine kept_settle ?_ ⟨?_, ?_⟩ registered rfl
      · intro place
        exact (drops_expire wellFormed now name delta count place).settles
      · intro room key record found
        rw [residents] at found
        by_cases here : room = name
        · subst room
          rw [if_pos rfl, lookup_unexpired] at found
          exact wellFormed.exclusive name key record
            (by rw [resident_of_awake state, (Option.filter_eq_some_iff.mp found).1])
        · rw [if_neg here] at found
          exact wellFormed.exclusive room key record found
      · intro other sleeping
        rw [state_putKeys] at sleeping
        rw [keysOf_putKeys]
        by_cases here : other = name
        · subst other
          rw [state] at sleeping
          cases sleeping
        · rw [if_neg here]
          exact wellFormed.asleep other sleeping
  | sleeping => exact (kept_expire_asleep wellFormed now state delta count).1

theorem kept_cleanExpiredKeys (wellFormed : db.WellFormed) (now : Nat) (name : Bytes) :
    Kept now db (db.cleanExpiredKeys now name) := by
  unfold cleanExpiredKeys
  by_cases unknown : name ∉ db.rooms
  · rw [if_pos unknown]
    exact Kept.refl wellFormed
  · rw [if_neg unknown]
    exact kept_expire wellFormed now name _ _

theorem drops_cleanExpiredKeys (wellFormed : db.WellFormed) (now : Nat) (name : Bytes)
    (place : Place) :
    Node.Drops now (db.held place) ((db.cleanExpiredKeys now name).held place) := by
  unfold cleanExpiredKeys
  by_cases unknown : name ∉ db.rooms
  · rw [if_pos unknown]
    exact .inl rfl
  · rw [if_neg unknown]
    exact drops_expire wellFormed now name _ _ place

/-! ## Hibernation -/

/-- Hibernation moves the records of an awake room to its snapshot file, from
which they come back in the hybrid format. -/
structure Hibernated (db after : Db) (name : Bytes) : Prop where
  awake : db.Awake name
  steps : ∀ now, Node.Steps db.config now db.node after.node
  wellFormed : after.WellFormed
  config : after.config = db.config
  snapshots : after.snapshots = db.snapshots.insert name (db.keysOf name)
  rewriteChild : after.rewriteChild = db.rewriteChild
  rewriteFrom : after.rewriteFrom = db.rewriteFrom
  rooms : ∀ other, other ∈ after.rooms ↔ other ∈ db.rooms
  log : after.aof = db.aof

theorem hibernated {after : Db} (wellFormed : db.WellFormed) (awake : db.Awake name)
    (bytes : Int) (snapshots : after.snapshots = db.snapshots.insert name (db.keysOf name))
    (roomsEq : after.rooms = db.rooms.insert name
      { db.room name with keys := ∅, bytes, state := .sleeping })
    (fields : after = { db with snapshots := after.snapshots, rooms := after.rooms,
                                activeRooms := after.activeRooms,
                                metrics := after.metrics }) :
    Hibernated db after name := by
  have rooms : ∀ other, after.room other =
      if other = name then { db.room name with keys := ∅, bytes, state := .sleeping }
      else db.room other := by
    intro other
    simp only [Db.room, roomsEq, FiniteMap.lookup_insert_if]
    by_cases here : other = name <;> simp [here]
  have residents : ∀ other, after.resident other =
      if other = name then (db.keysOf name).mapValues Record.normalized
      else db.resident other := by
    intro other
    rw [resident_eq, rooms, snapshots, FiniteMap.lookup_insert_if]
    by_cases here : other = name
    · rw [if_pos here, if_pos here, if_pos here]
      rfl
    · rw [if_neg here, if_neg here, if_neg here, resident_eq]
  have cold : after.cold = db.cold := by rw [fields]
  have sameNode : after.node = { db.node with held := after.held } := by
    rw [fields]
    rfl
  refine ⟨awake, ?_, ⟨?_, ?_⟩, by rw [fields], snapshots, by rw [fields], by rw [fields],
    ?_, by rw [fields]⟩
  · intro now
    rw [sameNode]
    refine .single (.own (.settle after.held ?_))
    rintro ⟨room, key⟩
    simp only [node, held, residents, cold]
    by_cases here : room = name
    · subst room
      rw [if_pos rfl, FiniteMap.lookup_mapValues, resident_of_awake awake]
      cases ram : (db.keysOf name).lookup key with
      | none => exact .inl rfl
      | some record =>
          rw [wellFormed.exclusive name key record (by rw [resident_of_awake awake, ram])]
          exact .inr (.inr rfl)
    · rw [if_neg here]
      exact .inl rfl
  · intro room key record found
    rw [residents] at found
    rw [cold]
    by_cases here : room = name
    · subst room
      rw [if_pos rfl, FiniteMap.lookup_mapValues] at found
      rcases Option.map_eq_some_iff.mp found with ⟨old, ram, _⟩
      exact wellFormed.exclusive name key old (by rw [resident_of_awake awake, ram])
    · rw [if_neg here] at found
      exact wellFormed.exclusive room key record found
  · intro other sleeping
    rw [rooms] at sleeping
    rw [keysOf, rooms]
    by_cases here : other = name
    · rw [if_pos here]
    · rw [if_neg here] at sleeping ⊢
      exact wellFormed.asleep other sleeping
  · intro other
    rw [roomsEq, AList.mem_insert]
    constructor
    · rintro (here | member)
      · rw [here]
        exact awake.registered
      · exact member
    · exact .inr

theorem hibernate_spec (wellFormed : db.WellFormed) (name : Bytes) :
    db.hibernate name = db ∨ Hibernated db (db.hibernate name) name := by
  unfold hibernate
  dsimp only
  by_cases asleep : (db.room name).state = .sleeping
  · rw [if_pos asleep]
    exact .inl rfl
  · rw [if_neg asleep]
    have awake : db.Awake name := by
      cases state : (db.room name).state with
      | active => exact state
      | sleeping => exact absurd state asleep
    exact .inr (hibernated wellFormed awake _ rfl rfl rfl)

theorem hibernateInactive_spec (wellFormed : db.WellFormed) (now : Nat) (name : Bytes) :
    db.hibernateInactive now name = db ∨ Hibernated db (db.hibernateInactive now name) name := by
  unfold hibernateInactive
  dsimp only
  by_cases idle : (db.room name).state = .active ∧ name ≠ defaultRoom ∧
      (db.room name).lastAccessTime + roomIdleMs < now
  · rw [if_pos idle]
    exact hibernate_spec wellFormed name
  · rw [if_neg idle]
    exact .inl rfl

/-! ## Frontiers -/

/-- What a collection that takes place knows of the frontiers. -/
structure Collects (db : Db) (low : Nat) : Prop where
  above : db.watermark < low
  peers : db.config.peerCount ≠ 0
  heard : db.config.peerCount ≤ db.heardFrontiers.length
  below : ∀ frontier ∈ db.heardFrontiers, low ≤ frontier

theorem foldl_min_le (values : List Nat) (start : Nat) :
    values.foldl min start ≤ start ∧ ∀ value ∈ values, values.foldl min start ≤ value := by
  induction values generalizing start with
  | nil => exact ⟨le_rfl, by simp⟩
  | cons first rest induction =>
      rcases induction (min start first) with ⟨bound, each⟩
      refine ⟨bound.trans (min_le_left _ _), ?_⟩
      intro value member
      rcases List.mem_cons.mp member with rfl | later
      · exact bound.trans (min_le_right _ _)
      · exact each value later

theorem collectTombstones_spec (db : Db) :
    db.collectTombstones = db ∨ ∃ low tombstones metrics,
      Collects db low ∧
      db.collectTombstones = { db with watermark := low, tombstones, metrics } ∧
      ∀ name key, tombstones.find name key =
        (db.tombstones.find name key).filter fun version => decide (low < version.ts) := by
  unfold collectTombstones
  dsimp only
  by_cases waits : db.config.peerCount = 0 ∨ db.heardFrontiers.length < db.config.peerCount ∨
      db.heardFrontiers.foldl min uint64Max ≤ db.watermark
  · rw [if_pos waits]
    exact .inl rfl
  · rw [if_neg waits]
    simp only [not_or, Nat.not_lt, Nat.not_le] at waits
    exact .inr ⟨_, _, _, ⟨waits.2.2, waits.1, waits.2.1, (foldl_min_le _ _).2⟩, rfl,
      fun name key => NestedMap.find_filter _ db.tombstones name key⟩

theorem kept_collectTombstones (wellFormed : db.WellFormed) :
    Kept now db db.collectTombstones := by
  rcases collectTombstones_spec db with same | ⟨low, tombstones, metrics, collects, equal, finds⟩
  · rw [same]
    exact Kept.refl wellFormed
  · rw [equal]
    refine ⟨.single ?_, ⟨wellFormed.exclusive, wellFormed.asleep⟩, rfl, rfl, rfl, rfl,
      fun _ => id, fun _ member => .inl member⟩
    have tombs : { db with watermark := low, tombstones, metrics }.node =
        { db.node with
          watermark := low
          tomb := fun place => (db.node.tomb place).filter fun version =>
            decide (low < version.ts) } := by
      apply Node.ext <;> try rfl
      funext place
      exact finds place.1 place.2
    rw [tombs]
    exact .collect low collects.above

theorem kept_announce (wellFormed : db.WellFormed) (now : Nat) (frontiers : FiniteMap Nat Nat)
    {fresh : Nat} (above : db.clock < fresh) :
    Kept now db { db with frontiers, frontier := fresh, clock := fresh } :=
  ⟨.single (.announce fresh above), ⟨wellFormed.exclusive, wellFormed.asleep⟩, rfl, rfl, rfl,
    rfl, fun _ => id, fun _ member => .inl member⟩

theorem kept_handleReplfrontier (wellFormed : db.WellFormed) (args : List Bytes) :
    Kept now db (db.handleReplfrontier now args).1 := by
  unfold handleReplfrontier
  dsimp only
  match args with
  | [head, nodeArg, frontierArg] =>
      dsimp only
      split
      · split
        · exact Kept.refl wellFormed
        · have above := Hlc.last_lt_next db.clock now 0
          exact (kept_announce wellFormed now _ above).trans (kept_collectTombstones
            (kept_announce wellFormed now _ above).wellFormed)
      · exact Kept.refl wellFormed
  | [] | [_] | [_, _] | _ :: _ :: _ :: _ :: _ => exact Kept.refl wellFormed

/-! ## Commands -/

theorem mem_table_of_named {name : Bytes} {kind : RoomCommand} (known : kind ≠ .unknown)
    (named : Command.named name = .inRoom kind) :
    (name, Command.inRoom kind) ∈ Command.table := by
  unfold Command.named at named
  by_cases same : List.isPrefixOf (ascii "ROOM.") name = true
  · rw [if_pos same] at named
    cases named
  · rw [if_neg same] at named
    cases listed : Command.table.lookup name with
    | none =>
        rw [listed] at named
        cases named
        exact absurd rfl known
    | some command =>
        rw [listed] at named
        obtain rfl : command = .inRoom kind := named
        rcases List.lookup_eq_some_iff.mp listed with ⟨before, after, equal, _⟩
        rw [equal]
        simp

theorem named_set {name : Bytes} (named : Command.named name = .inRoom .set) :
    name = ascii "SET" := by
  simpa [Command.table] using mem_table_of_named (by simp) named

theorem named_mset {name : Bytes} (named : Command.named name = .inRoom .mset) :
    name = ascii "MSET" := by
  simpa [Command.table] using mem_table_of_named (by simp) named

theorem named_crdtmerge {name : Bytes} (named : Command.named name = .inRoom .crdtmerge) :
    name = ascii "CRDTMERGE" := by
  simpa [Command.table] using mem_table_of_named (by simp) named

theorem named_crdtdel {name : Bytes} (named : Command.named name = .inRoom .crdtdel) :
    name = ascii "CRDTDEL" := by
  simpa [Command.table] using mem_table_of_named (by simp) named

/-- The commands on keys that do not come from a peer. -/
theorem serves_ownCommand (wellFormed : db.WellFormed) (awake : db.Awake name)
    (resp3 : Bool) {args : List Bytes} {first : Bytes} (head : args.head? = some first)
    {kind : RoomCommand} (named : Command.named (upper first) = .inRoom kind)
    (own : kind ≠ .crdtmerge ∧ kind ≠ .crdtdel) :
    Serves Node.Local now db (db.runInRoom now resp3 name args kind).1 := by
  cases kind with
  | get => exact (serves_handleGet wellFormed awake resp3 args).of_shed
  | set => exact serves_handleSet wellFormed awake resp3 head (named_set named)
  | del => exact serves_handleDel wellFormed awake args
  | crdtmerge => exact absurd rfl own.1
  | crdtdel => exact absurd rfl own.2
  | mget => exact (serves_handleMget wellFormed awake resp3 args).of_shed
  | mset => exact serves_handleMset wellFormed awake head (named_mset named)
  | exist => exact (serves_handleExists wellFormed awake args).of_shed
  | expire => exact serves_handleExpire wellFormed awake args 1000
  | pexpire => exact serves_handleExpire wellFormed awake args 1
  | persist => exact serves_handleExpire wellFormed awake args 0
  | ttl => exact (serves_handleTtl wellFormed awake args false).of_shed
  | pttl => exact (serves_handleTtl wellFormed awake args true).of_shed
  | save => exact Serves.refl wellFormed
  | unknown => exact Serves.refl wellFormed

/-- Every command that runs in a room. -/
theorem serves_runInRoom (wellFormed : db.WellFormed) (awake : db.Awake name)
    (resp3 : Bool) {args : List Bytes} {first : Bytes} (head : args.head? = some first)
    {kind : RoomCommand} (named : Command.named (upper first) = .inRoom kind) :
    Serves Node.Step now db (db.runInRoom now resp3 name args kind).1 := by
  by_cases merge : kind = .crdtmerge
  · subst merge
    exact serves_handleCrdtmerge wellFormed awake head (named_crdtmerge named)
  · by_cases delete : kind = .crdtdel
    · subst delete
      exact serves_handleCrdtdel wellFormed awake head (named_crdtdel named)
    · exact (serves_ownCommand wellFormed awake resp3 head named ⟨merge, delete⟩).of_local

theorem kept_executeInRoom (wellFormed : db.WellFormed) (call : Call) (name : Bytes)
    {first : Bytes} (head : call.args.head? = some first) {kind : RoomCommand}
    (named : Command.named (upper first) = .inRoom kind) :
    Kept call.now db (db.executeInRoom call name kind).1 := by
  rcases open_spec wellFormed call.now name with ⟨kept, _, woken⟩
  unfold executeInRoom executeInRoomWith
  dsimp only
  rcases equal : (db.findRoom name).activate call.now name false with ⟨awake, _ | _⟩
  · rw [equal] at kept
    exact kept
  · rw [equal] at kept woken
    have served : Serves Node.Step call.now _ _ :=
      serves_runInRoom kept.wellFormed (woken rfl) call.resp3 head named
    exact kept.trans (served.trans (serves_evictDespisedKeys served.wellFormed
      (served.frame.awake (woken rfl)) call.victims)).kept

/-- What a command does besides its work on keys: nothing, or it puts a room to
sleep, or it forks a rewrite. -/
inductive Dispatched (db : Db) (call : Call) : Db → Prop
  | kept {after : Db} (kept : Kept call.now db after) : Dispatched db call after
  | slept {known after : Db} (name : Bytes) (kept : Kept call.now db known)
      (hibernated : Hibernated known after name) : Dispatched db call after
  | forked {known : Db} (kept : Kept call.now db known) (idle : known.rewriteChild = none) :
      Dispatched db call known.startBackgroundRewrite.1

/-- The child of a rewrite gets on with its own work, and may lose a snapshot file. -/
theorem childStep_fields (db : Db) (now : Nat) :
    ∃ snapshots child, db.childStep now = { db with snapshots, rewriteChild := child } ∧
      ∀ name, snapshots.lookup name = db.snapshots.lookup name ∨
        snapshots.lookup name = none := by
  have progressed : ∀ child, ∃ snapshots child',
      { db with rewriteChild := child } = { db with snapshots, rewriteChild := child' } ∧
        ∀ name, snapshots.lookup name = db.snapshots.lookup name ∨
          snapshots.lookup name = none :=
    fun child => ⟨db.snapshots, child, rfl, fun _ => .inl rfl⟩
  unfold childStep
  cases db.rewriteChild with
  | none => exact progressed db.rewriteChild
  | some child =>
      dsimp only
      by_cases finished : child.finished = true
      · rw [if_pos finished]
        exact progressed db.rewriteChild
      · rw [if_neg finished]
        cases child.now with
        | none => exact progressed _
        | some start =>
            dsimp only
            split
            · exact progressed _
            · split
              · exact progressed _
              · split
                · rename_i name _ _ _ _ _ _
                  unfold childReadSnapshot
                  split
                  · exact progressed _
                  · split
                    · exact progressed _
                    · refine ⟨_, _, rfl, fun other => ?_⟩
                      split
                      · rw [FiniteMap.lookup_erase_if]
                        split
                        · exact .inr rfl
                        · exact .inl rfl
                      · exact .inl rfl
                · split <;> exact progressed _

/-- What a command finds of a rewrite: none that has ended, one that failed, or one
that is committed. -/
theorem finishBackgroundRewrite_cases (db : Db) :
    db.finishBackgroundRewrite = db ∨
      ∃ child, db.rewriteChild = some child ∧ child.finished = true ∧
        (child.failed = true ∧ db.finishBackgroundRewrite = { db with rewriteChild := none } ∨
          child.failed = false ∧ db.finishBackgroundRewrite =
            { db with
              rewriteChild := none
              aof := child.written ++ db.aof.drop db.rewriteFrom }) := by
  unfold finishBackgroundRewrite
  cases running : db.rewriteChild with
  | none => exact .inl rfl
  | some child =>
      cases finished : child.finished with
      | false => exact .inl (by simp [finished])
      | true =>
          refine .inr ⟨child, rfl, finished, ?_⟩
          cases failed : child.failed with
          | false => exact .inr ⟨rfl, by simp [finished, failed]⟩
          | true => exact .inl ⟨rfl, by simp [finished, failed]⟩

theorem rooms_finishBackgroundRewrite (db : Db) :
    db.finishBackgroundRewrite.rooms = db.rooms := by
  rcases finishBackgroundRewrite_cases db with same | ⟨_, _, _, ⟨_, dropped⟩ | ⟨_, committed⟩⟩
  · rw [same]
  · rw [dropped]
  · rw [committed]

theorem beginCommand_cases (db : Db) (call : Call) :
    db.beginCommand call = db.finishBackgroundRewrite ∨
      db.finishBackgroundRewrite.rewriteChild = none ∧
        db.beginCommand call = db.finishBackgroundRewrite.startBackgroundRewrite.1 := by
  unfold beginCommand
  dsimp only
  by_cases due : (db.finishBackgroundRewrite.rewriteChild.isNone && call.rewriteDue) = true
  · rw [if_pos due]
    rw [Bool.and_eq_true] at due
    exact .inr ⟨Option.isNone_iff_eq_none.mp due.1, rfl⟩
  · rw [if_neg due]
    exact .inl rfl

theorem startBackgroundRewrite_busy {child : RewriteChild}
    (busy : db.rewriteChild = some child) : db.startBackgroundRewrite.1 = db := by
  unfold startBackgroundRewrite
  rw [busy]

theorem dispatched_handleRoomAdmin {call : Call} {known : Db}
    (kept : Kept call.now db known) (command : Bytes) :
    Dispatched db call (known.handleRoomAdmin call.now call.resp3 command call.args).1 := by
  unfold handleRoomAdmin
  by_cases isRooms : command = ascii "ROOMS"
  · rw [if_pos isRooms]
    exact .kept kept
  · rw [if_neg isRooms]
    split
    · rename_i _ name _
      by_cases isWake : command = ascii "ROOM.WAKE"
      · rw [if_pos isWake]
        exact .kept (kept.trans (wakeRoom_spec kept.wellFormed call.now name).1)
      · rw [if_neg isWake]
        by_cases unknown : name ∉ known.rooms
        · rw [if_pos unknown]
          exact .kept kept
        · rw [if_neg unknown]
          by_cases isHibernate : command = ascii "ROOM.HIBERNATE"
          · rw [if_pos isHibernate]
            by_cases equal : name = defaultRoom
            · rw [if_pos equal]
              exact .kept kept
            · rw [if_neg equal]
              rcases hibernate_spec kept.wellFormed name with same | hibernated
              · rw [same]
                exact .kept kept
              · exact .slept name kept hibernated
          · rw [if_neg isHibernate]
            by_cases isInfo : command = ascii "ROOM.INFO"
            · rw [if_pos isInfo]
              exact .kept kept
            · rw [if_neg isInfo]
              exact .kept kept
    · exact .kept kept

theorem dispatched_runConnection {call : Call} {known : Db}
    (kept : Kept call.now db known) (name : Bytes) (kind : ConnectionCommand) :
    Dispatched db call (known.runConnection call name kind).1 := by
  cases kind with
  | ping => exact .kept kept
  | echo => exact .kept kept
  | command => exact .kept kept
  | room => exact .kept (kept.trans (kept_handleRoom kept.wellFormed _ _))
  | rooms => exact dispatched_handleRoomAdmin kept name
  | replfrontier => exact .kept (kept.trans (kept_handleReplfrontier kept.wellFormed _))
  | rewriteaof =>
      cases child : known.rewriteChild with
      | none => exact .forked kept child
      | some running =>
          have same := startBackgroundRewrite_busy child
          unfold runConnection
          rw [same]
          exact .kept kept
  | compact => exact .kept (kept.trans (kept_compact kept.wellFormed _))

/-- Every command. -/
theorem dispatched_dispatch (wellFormed : db.WellFormed) (call : Call) {first : Bytes}
    (head : call.args.head? = some first) :
    Dispatched db call (db.dispatch call (upper first)).1 := by
  have kept : Kept call.now db
      (db.setClientRoom call.clientFd (db.clientRoom call.clientFd)) :=
    kept_setClientRoom wellFormed _ _
  unfold dispatch
  dsimp only
  split
  · exact .kept kept
  · exact dispatched_runConnection kept _ _
  · by_cases subscribed : call.subscribed = true
    · rw [if_pos subscribed]
      exact .kept kept
    · rw [if_neg subscribed]
      exact dispatched_runConnection kept _ _
  · rename_i kind named
    by_cases subscribed : call.subscribed = true
    · rw [if_pos subscribed]
      exact .kept kept
    · rw [if_neg subscribed]
      exact .kept (kept.trans (kept_executeInRoom kept.wellFormed call _ head named))

end Db

end SomniumDB
