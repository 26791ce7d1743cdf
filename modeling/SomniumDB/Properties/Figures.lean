import SomniumDB.Abstract.Accounting
import SomniumDB.Abstract.Dispatch
import SomniumDB.Abstract.Replay

/-! # The figures of a node over its whole life

The sizes that eviction works with and the number of active rooms are kept by
differences, over commands, sweeps, hibernation, waking and recovery. They never drift
from what is in RAM. -/

namespace SomniumDB

open Bytes

namespace Db

/-! ## The place of a room -/

namespace Slot

variable {first second slot : Slot}

/-- The phases in which an operation may leave a room. -/
def Settled (slot : Slot) : Prop :=
  slot.phase = .sleeping ∨ slot.phase = .active

theorem Settled.activate (settled : slot.Settled) (overBudget fits : Bool) :
    (slot.activate overBudget fits).1.Settled := by
  unfold Slot.activate
  by_cases awake : slot.phase = .active
  · rw [if_pos awake]
    exact settled
  · rw [if_neg awake]
    by_cases full : maxActiveRooms ≤ slot.activeRooms ∧ (!overBudget) = true
    · rw [if_pos full]
      exact settled
    · rw [if_neg full]
      -- The place is taken, and the room is `loading` until its keys are weighed.
      by_cases heavy : (!overBudget && !fits) = true
      · rw [if_pos heavy]
        exact .inl rfl
      · rw [if_neg heavy]
        exact .inr rfl

theorem Settled.hibernate (settled : slot.Settled) (saved : Bool) :
    (slot.hibernate saved).1.Settled := by
  unfold Slot.hibernate
  by_cases asleep : slot.phase = .sleeping
  · rw [if_pos asleep]
    exact settled
  · rw [if_neg asleep]
    cases saved with
    | false => exact .inr rfl
    | true => exact .inl rfl

/-- One slot becomes another by whole runs of the two functions, while other rooms take
places and give them back. -/
inductive Leads (first : Slot) : Slot → Prop
  | refl : Leads first first
  | elsewhere {slot : Slot} (leads : Leads first slot) (activeRooms : Nat) :
      Leads first { slot with activeRooms }
  | activate {slot : Slot} (leads : Leads first slot) (overBudget fits : Bool) :
      Leads first (slot.activate overBudget fits).1
  | hibernate {slot : Slot} (leads : Leads first slot) (saved : Bool) :
      Leads first (slot.hibernate saved).1

theorem Leads.trans (left : first.Leads second) (right : second.Leads slot) :
    first.Leads slot := by
  induction right with
  | refl => exact left
  | elsewhere _ activeRooms induction => exact induction.elsewhere activeRooms
  | activate _ overBudget fits induction => exact induction.activate overBudget fits
  | hibernate _ saved induction => exact induction.hibernate saved

theorem Leads.settled (leads : first.Leads slot) (settled : first.Settled) : slot.Settled := by
  induction leads with
  | refl => exact settled
  | elsewhere _ _ induction => exact induction
  | activate _ overBudget fits induction => exact induction.activate overBudget fits
  | hibernate _ saved induction => exact induction.hibernate saved

end Slot

variable {db after : Db} {name : Bytes}

theorem slot_setRoom (db : Db) (name : Bytes) (room : Room) :
    (db.setRoom name room).slot name =
      { phase := phaseOf room.state, activeRooms := db.activeRooms } := by
  unfold slot Db.room setRoom
  rw [FiniteMap.lookup_insert_if, if_pos rfl]
  rfl

/-- The states and the counter are those that the steps of `activate` assign. -/
theorem slot_activate (db : Db) (now : Nat) (name : Bytes) (overBudget : Bool) :
    (db.activate now name overBudget).1.slot name =
      ((db.slot name).activate overBudget
        (db.fits (Room.keysCost { db.room name with keys := db.wakeupRoom name }))).1 := by
  unfold activate Slot.activate
  cases state : (db.room name).state with
  | active =>
      have awake : (db.slot name).phase = .active := congrArg phaseOf state
      dsimp only
      rw [if_pos state, if_pos awake, slot_setRoom]
      rfl
  | sleeping =>
      have asleep : ¬(db.slot name).phase = .active := by
        change ¬phaseOf (db.room name).state = .active
        rw [state]
        decide
      have inactive : ¬(db.room name).state = .active := by
        rw [state]
        decide
      dsimp only
      rw [if_neg asleep, if_neg inactive]
      by_cases full : maxActiveRooms ≤ db.activeRooms ∧ (!overBudget) = true
      · have taken : maxActiveRooms ≤ (db.slot name).activeRooms ∧ (!overBudget) = true := full
        rw [if_pos full, if_pos taken, slot_setRoom]
        rfl
      · have free : ¬(maxActiveRooms ≤ (db.slot name).activeRooms ∧ (!overBudget) = true) := full
        rw [if_neg full, if_neg free]
        cases light : (!overBudget && !db.fits (Room.keysCost
            { db.room name with lastAccessTime := now, keys := db.wakeupRoom name })) with
        | true =>
            have refused : (!overBudget && !db.fits (Room.keysCost
              { db.room name with keys := db.wakeupRoom name })) = true := light
            rw [refused, if_pos rfl, if_pos rfl, slot_setRoom, state]
            rfl
        | false =>
            have admitted : (!overBudget && !db.fits (Room.keysCost
              { db.room name with keys := db.wakeupRoom name })) = false := light
            rw [admitted, if_neg (by decide), if_neg (by decide)]
            unfold slot Db.room
            rw [FiniteMap.lookup_insert_if, if_pos rfl]
            rfl

theorem slot_hibernate (db : Db) (name : Bytes) :
    (db.hibernate name).slot name = ((db.slot name).hibernate true).1 := by
  unfold hibernate Slot.hibernate
  cases state : (db.room name).state with
  | sleeping =>
      have asleep : (db.slot name).phase = .sleeping := congrArg phaseOf state
      dsimp only
      rw [if_pos state, if_pos asleep]
  | active =>
      have awake : (db.slot name).phase = .active := congrArg phaseOf state
      dsimp only
      rw [if_neg (by rw [state]; decide), if_neg (by rw [awake]; decide), if_neg (by decide)]
      unfold slot Db.room
      rw [FiniteMap.lookup_insert_if, if_pos rfl]
      rfl

theorem slot_hibernateFailed (db : Db) (name : Bytes) :
    (db.hibernateFailed name).slot name = ((db.slot name).hibernate false).1 := by
  unfold hibernateFailed Slot.hibernate
  cases state : (db.room name).state with
  | sleeping =>
      have asleep : (db.slot name).phase = .sleeping := congrArg phaseOf state
      dsimp only
      rw [if_pos state, if_pos asleep]
  | active =>
      have awake : (db.slot name).phase = .active := congrArg phaseOf state
      dsimp only
      rw [if_neg (by rw [state]; decide), if_neg (by rw [awake]; decide),
        if_pos Bool.not_false, slot_setRoom]
      rfl

/-- The room keeps its state, whatever the others do to the counter. -/
theorem leads_of_state (state : (after.room name).state = (db.room name).state) :
    (db.slot name).Leads (after.slot name) := by
  have equal : after.slot name = { db.slot name with activeRooms := after.activeRooms } := by
    unfold slot
    rw [state]
  rw [equal]
  exact .elsewhere .refl _

/-- Of a step that changes one room only. -/
theorem leads_of_own (apart : ∀ other, other ≠ name → after.room other = db.room other)
    (own : (db.slot name).Leads (after.slot name)) (other : Bytes) :
    (db.slot other).Leads (after.slot other) := by
  by_cases same : other = name
  · rw [same]
    exact own
  · exact leads_of_state (congrArg Room.state (apart other same))

theorem room_of_insert {room : Room} {other : Bytes}
    (rooms : after.rooms = db.rooms.insert name room) (apart : other ≠ name) :
    after.room other = db.room other := by
  unfold Db.room
  rw [rooms, FiniteMap.lookup_insert_if, if_neg apart]

theorem room_hibernate_other {other : Bytes} (apart : other ≠ name) :
    (db.hibernate name).room other = db.room other := by
  unfold hibernate
  dsimp only
  by_cases asleep : (db.room name).state = .sleeping
  · rw [if_pos asleep]
  · rw [if_neg asleep]
    exact room_of_insert rfl apart

theorem leads_hibernate (db : Db) (name other : Bytes) :
    (db.slot other).Leads ((db.hibernate name).slot other) := by
  apply leads_of_own fun _ apart => room_hibernate_other apart
  rw [slot_hibernate]
  exact .hibernate .refl true

theorem leads_hibernateFailed (db : Db) (name other : Bytes) :
    (db.slot other).Leads ((db.hibernateFailed name).slot other) := by
  have apart : ∀ other, other ≠ name → (db.hibernateFailed name).room other = db.room other := by
    intro other apart
    unfold hibernateFailed
    dsimp only
    by_cases asleep : (db.room name).state = .sleeping
    · rw [if_pos asleep]
    · rw [if_neg asleep]
      exact room_of_insert rfl apart
  apply leads_of_own apart
  rw [slot_hibernateFailed]
  exact .hibernate .refl false

/-! ## Rooms -/

/-- What happens between two states of one process. -/
structure Lives (db after : Db) : Prop where
  accounted : db.Accounted → after.Accounted
  /-- A room is woken only while there is a place among the active ones. -/
  slots : after.activeRooms ≤ max maxActiveRooms db.activeRooms
  /-- The default room is not put to sleep. -/
  pinned : db.Awake defaultRoom → after.Awake defaultRoom
  leads : ∀ name, (db.slot name).Leads (after.slot name)

theorem Lives.refl : Lives db db :=
  ⟨id, le_max_right _ _, id, fun _ => .refl⟩

theorem Lives.trans {second third : Db} (left : Lives db second) (right : Lives second third) :
    Lives db third where
  accounted := right.accounted ∘ left.accounted
  slots := right.slots.trans (max_le (le_max_left _ _) left.slots)
  pinned := right.pinned ∘ left.pinned
  leads name := (left.leads name).trans (right.leads name)

theorem lives_elsewhere (rooms : after.rooms = db.rooms)
    (resident : after.metrics.residentBytes = db.metrics.residentBytes)
    (count : after.metrics.keysInRam = db.metrics.keysInRam)
    (active : after.activeRooms = db.activeRooms) : Lives db after := by
  have room : ∀ name, after.room name = db.room name := by
    intro name
    rw [Db.room, rooms]
    rfl
  refine ⟨fun accounted => accounted.elsewhere rooms resident count active, ?_, ?_, ?_⟩
  · rw [active]
    exact le_max_right _ _
  · intro awake
    rw [Awake, room]
    exact awake
  · intro name
    exact leads_of_state (congrArg Room.state (room name))

theorem Charges.lives (charges : Charges name db after) (awake : db.Awake name) :
    Lives db after where
  accounted figures := charges.accounted figures awake
  slots := by
    rw [charges.active]
    exact le_max_right _ _
  pinned pinned := (charges.state defaultRoom).trans pinned
  leads name := leads_of_state (charges.state name)

/-- A room changes without its keys, its size and its state. -/
theorem lives_setRoom (room : Room) (keys : room.keys = (db.room name).keys)
    (bytes : room.bytes = (db.room name).bytes) (state : room.state = (db.room name).state) :
    Lives db (db.setRoom name room) := by
  have states : ∀ other, ((db.setRoom name room).room other).state = (db.room other).state := by
    intro other
    by_cases same : other = name
    · rw [same, ← state]
      unfold Db.room setRoom
      rw [FiniteMap.lookup_insert_if, if_pos rfl]
      rfl
    · exact congrArg Room.state (room_of_insert rfl same)
  refine ⟨?_, le_max_right _ _, (states defaultRoom).trans,
    fun other => leads_of_state (states other)⟩
  intro accounted
  apply accounted.replaced room rfl
  · rw [bytes, accounted.bytes, keysCost_eq, keysCost_eq, keys]
  · intro asleep
    rw [keys]
    exact accounted.asleep name (state ▸ asleep)
  · change db.metrics.residentBytes = _
    omega
  · change db.metrics.keysInRam = _
    rw [keys]
    omega
  · change (db.activeRooms : Int) = _
    rw [state]
    omega

theorem lives_findRoom (db : Db) (name : Bytes) : Lives db (db.findRoom name) := by
  unfold findRoom
  by_cases known : name ∈ db.rooms
  · rw [if_pos known]
    exact .refl
  · rw [if_neg known]
    have missing : db.room name = {} := by
      rw [room, AList.lookup_eq_none.mpr known]
      rfl
    exact lives_setRoom {} (by rw [missing]) (by rw [missing]) (by rw [missing])

/-- A room that was asleep is loaded. -/
theorem Accounted.woken (accounted : db.Accounted) (sleeping : (db.room name).state = .sleeping)
    (now : Nat) (keys : FiniteMap Bytes Record) :
    ({ db with
        rooms := db.rooms.insert name
          { db.room name with
            lastAccessTime := now, keys
            bytes := (db.room name).bytes + keys.total recordCost
            state := .active }
        activeRooms := db.activeRooms + 1
        metrics := { db.metrics with
          keysInRam := db.metrics.keysInRam + keys.toPairs.length
          residentBytes := db.metrics.residentBytes + keys.total recordCost } } :
      Db).Accounted := by
  have empty := accounted.asleep name sleeping
  have nothing := accounted.bytes name
  rw [keysCost_eq, empty, FiniteMap.total_empty] at nothing
  apply accounted.replaced _ rfl
  · dsimp only
    rw [nothing, Int.zero_add]
    rfl
  · rintro ⟨⟩
  · dsimp only
    omega
  · dsimp only
    rw [empty]
    rfl
  · dsimp only
    rw [if_pos rfl, if_neg (by rw [sleeping]; decide)]
    omega

/-- A refused or repeated activation changes only the time of the last access. -/
theorem activate_cases (db : Db) (now : Nat) (name : Bytes) (overBudget : Bool) :
    (∃ room, room.bytes = (db.room name).bytes ∧ room.state = (db.room name).state ∧
        (room.keys = (db.room name).keys ∨
          (db.room name).state = .sleeping ∧ room.keys = ∅) ∧
        ((db.activate now name overBudget).2 = true → db.Awake name) ∧
        (db.activate now name overBudget).1 = db.setRoom name room) ∨
      (db.room name).state = .sleeping ∧
        (overBudget = false → db.activeRooms < maxActiveRooms) ∧
        ∃ keys, (db.activate now name overBudget).1 =
          { db with
            rooms := db.rooms.insert name
              { db.room name with
                lastAccessTime := now, keys
                bytes := (db.room name).bytes + keys.total recordCost
                state := .active }
            activeRooms := db.activeRooms + 1
            metrics := { db.metrics with
              keysInRam := db.metrics.keysInRam + keys.toPairs.length
              residentBytes := db.metrics.residentBytes + keys.total recordCost } } := by
  unfold activate
  dsimp only
  by_cases active : (db.room name).state = .active
  · rw [if_pos active]
    exact .inl ⟨{ db.room name with lastAccessTime := now }, rfl, rfl, .inl rfl,
      fun _ => active, rfl⟩
  · rw [if_neg active]
    have sleeping : (db.room name).state = .sleeping := by
      cases state : (db.room name).state with
      | sleeping => rfl
      | active => exact absurd state active
    by_cases full : maxActiveRooms ≤ db.activeRooms ∧ (!overBudget) = true
    · rw [if_pos full]
      exact .inl ⟨{ db.room name with lastAccessTime := now }, rfl, rfl, .inl rfl,
        fun refused => (by cases refused), rfl⟩
    · rw [if_neg full]
      split
      · exact .inl ⟨{ db.room name with lastAccessTime := now, keys := ∅ }, rfl, rfl,
          .inr ⟨sleeping, rfl⟩, fun refused => (by cases refused), rfl⟩
      · refine .inr ⟨sleeping, ?_, _, rfl⟩
        rintro rfl
        simpa using full

theorem accounted_activate (accounted : db.Accounted) (now : Nat) (name : Bytes)
    (overBudget : Bool) : (db.activate now name overBudget).1.Accounted := by
  rcases activate_cases db now name overBudget with
    ⟨room, bytes, state, keys, _, equal⟩ | ⟨sleeping, _, keys, equal⟩
  · have same : room.keys = (db.room name).keys := by
      rcases keys with same | ⟨sleeping, empty⟩
      · exact same
      · rw [empty, accounted.asleep name sleeping]
    rw [equal]
    exact (lives_setRoom room same bytes state).accounted accounted
  · rw [equal]
    exact accounted.woken sleeping now keys

theorem room_activate_other (now : Nat) (overBudget : Bool) {other : Bytes}
    (apart : other ≠ name) : (db.activate now name overBudget).1.room other = db.room other := by
  rcases activate_cases db now name overBudget with ⟨_, _, _, _, _, equal⟩ | ⟨_, _, keys, equal⟩
  · rw [equal]
    exact room_of_insert rfl apart
  · rw [equal]
    exact room_of_insert rfl apart

theorem leads_activate (db : Db) (now : Nat) (name : Bytes) (overBudget : Bool) (other : Bytes) :
    (db.slot other).Leads ((db.activate now name overBudget).1.slot other) := by
  apply leads_of_own fun _ apart => room_activate_other now overBudget apart
  rw [slot_activate]
  exact .activate .refl _ _

/-- No room is put to sleep. -/
theorem awake_of_activate (now : Nat) (name : Bytes) (overBudget : Bool) {other : Bytes}
    (awake : db.Awake other) : (db.activate now name overBudget).1.Awake other := by
  by_cases same : other = name
  · subst same
    rcases activate_cases db now other overBudget with
      ⟨room, _, state, _, _, equal⟩ | ⟨sleeping, _⟩
    · rw [equal, Awake, ← awake, ← state]
      unfold Db.room setRoom
      rw [FiniteMap.lookup_insert_if, if_pos rfl]
      rfl
    · rw [awake] at sleeping
      cases sleeping
  · rw [Awake, room_activate_other now overBudget same]
    exact awake

theorem awake_activate (db : Db) {now : Nat} {name : Bytes} {overBudget : Bool}
    (success : (db.activate now name overBudget).2 = true) :
    (db.activate now name overBudget).1.Awake name := by
  rcases activate_cases db now name overBudget with
    ⟨_, _, _, _, awake, _⟩ | ⟨_, _, keys, equal⟩
  · exact awake_of_activate now name overBudget (awake success)
  · rw [equal]
    unfold Awake Db.room
    rw [FiniteMap.lookup_insert_if, if_pos rfl]
    rfl

theorem lives_activate (db : Db) (now : Nat) (name : Bytes) :
    Lives db (db.activate now name false).1 := by
  refine ⟨fun accounted => accounted_activate accounted now name false, ?_, ?_,
    leads_activate db now name false⟩
  · rcases activate_cases db now name false with
      ⟨room, _, _, _, _, equal⟩ | ⟨_, free, keys, equal⟩
    · rw [equal]
      exact le_max_right _ _
    · rw [equal]
      exact (Nat.succ_le_of_lt (free rfl)).trans (le_max_left _ _)
  · exact awake_of_activate now name false

/-- A room that is awake takes one of the places. -/
theorem Accounted.positive (accounted : db.Accounted) (awake : db.Awake name) :
    1 ≤ db.activeRooms := by
  have others := FiniteMap.total_erase
    (fun _ (room : Room) => if room.state = .active then (1 : Int) else 0) db.rooms name
  have rest : 0 ≤ awakeRooms (db.rooms.erase name) := by
    apply FiniteMap.total_nonneg
    intro _ room
    by_cases counted : room.state = .active
    · rw [if_pos counted]
      decide
    · rw [if_neg counted]
  have here := weight_room db name (fun room => if room.state = .active then 1 else 0) rfl
  have counted := accounted.active
  rw [if_pos (show (db.room name).state = .active from awake)] at here
  rw [here] at others
  unfold awakeRooms at counted rest
  omega

theorem accounted_hibernate (accounted : db.Accounted) (name : Bytes) :
    (db.hibernate name).Accounted := by
  unfold hibernate
  dsimp only
  cases state : (db.room name).state with
  | sleeping =>
      rw [if_pos rfl]
      exact accounted
  | active =>
      rw [if_neg (by decide)]
      have positive := accounted.positive state
      apply accounted.replaced _ rfl
      · dsimp only
        rw [accounted.bytes name, Int.sub_self]
        rfl
      · intro _
        rfl
      · dsimp only
        omega
      · change _ = db.metrics.keysInRam + ((0 : Int) - _)
        dsimp only
        omega
      · dsimp only
        rw [if_neg (by decide), if_pos state]
        omega

theorem lives_hibernate (db : Db) {name : Bytes} (other : name ≠ defaultRoom) :
    Lives db (db.hibernate name) := by
  refine ⟨fun accounted => accounted_hibernate accounted name, ?_, ?_, leads_hibernate db name⟩
  · unfold hibernate
    dsimp only
    by_cases asleep : (db.room name).state = .sleeping
    · rw [if_pos asleep]
      exact le_max_right _ _
    · rw [if_neg asleep]
      exact (Nat.sub_le _ _).trans (le_max_right _ _)
  · intro awake
    rw [Awake, room_hibernate_other other.symm]
    exact awake

theorem lives_hibernateFailed (db : Db) (name : Bytes) : Lives db (db.hibernateFailed name) := by
  have same : Lives db (db.hibernateFailed name) := by
    unfold hibernateFailed
    dsimp only
    cases state : (db.room name).state with
    | sleeping =>
        rw [if_pos rfl]
        exact .refl
    | active =>
        rw [if_neg (by decide)]
        exact lives_setRoom { db.room name with state := .active } rfl rfl state.symm
  exact { same with leads := leads_hibernateFailed db name }

theorem lives_hibernateInactive (db : Db) (now : Nat) (name : Bytes) :
    Lives db (db.hibernateInactive now name) := by
  unfold hibernateInactive
  dsimp only
  by_cases idle : (db.room name).state = .active ∧ name ≠ defaultRoom ∧
      (db.room name).lastAccessTime + roomIdleMs < now
  · rw [if_pos idle]
    exact lives_hibernate db idle.2.1
  · rw [if_neg idle]
    exact .refl

theorem lives_cleanExpiredKeys (db : Db) (now : Nat) (name : Bytes) :
    Lives db (db.cleanExpiredKeys now name) := by
  unfold cleanExpiredKeys
  by_cases unknown : name ∉ db.rooms
  · rw [if_pos unknown]
    exact .refl
  · rw [if_neg unknown]
    dsimp only
    refine ⟨?_, le_max_right _ _, ?_, ?_⟩
    · intro accounted
      have cost := FiniteMap.total_filter recordCost (db.keysOf name)
        fun _ record => !record.expired now
      have length := FiniteMap.total_filter (fun _ _ => 1) (db.keysOf name)
        fun _ record => !record.expired now
      simp only [Bool.not_not] at cost length
      rw [FiniteMap.total_one, FiniteMap.total_one, FiniteMap.total_one] at length
      refine accounted.putKeys ?_ ?_ ?_
      · intro asleep
        rw [keysOf, accounted.asleep name asleep]
        rfl
      · change -FiniteMap.total recordCost _ = _
        omega
      · omega
    · intro awake
      exact (state_putKeys _ _ _ _ _ defaultRoom).trans awake
    · intro other
      exact leads_of_state (state_putKeys _ _ _ _ _ other)

theorem lives_setClientRoom (db : Db) (clientFd : Nat) (name : Bytes) :
    Lives db (db.setClientRoom clientFd name) :=
  lives_elsewhere rfl rfl rfl rfl

theorem lives_wakeRoom (db : Db) (now : Nat) (name : Bytes) :
    Lives db (db.wakeRoom now name).1 := by
  unfold wakeRoom
  by_cases invalid : (!validRoomName name) = true
  · rw [if_pos invalid]
    exact .refl
  · rw [if_neg invalid]
    by_cases crowded : name ∉ db.rooms ∧ db.config.maxRooms ≤ db.rooms.toPairs.length
    · rw [if_pos crowded]
      exact .refl
    · rw [if_neg crowded]
      exact (lives_findRoom db name).trans (lives_activate _ now name)

theorem lives_handleRoom (db : Db) (now clientFd : Nat) (args : List Bytes) :
    Lives db (db.handleRoom now clientFd args).1 := by
  unfold handleRoom
  match args with
  | [_, name] =>
      dsimp only
      have woken := lives_wakeRoom db now name
      rcases equal : db.wakeRoom now name with ⟨_, _ | _⟩
      · rw [equal] at woken
        exact woken.trans (lives_setClientRoom _ _ _)
      · rw [equal] at woken
        exact woken
  | [] | [_] | _ :: _ :: _ :: _ => exact .refl

theorem lives_handleRoomAdmin (db : Db) (now : Nat) (resp3 : Bool) (command : Bytes)
    (args : List Bytes) : Lives db (db.handleRoomAdmin now resp3 command args).1 := by
  unfold handleRoomAdmin
  by_cases isRooms : command = ascii "ROOMS"
  · rw [if_pos isRooms]
    exact .refl
  · rw [if_neg isRooms]
    match args with
    | [head, name] =>
        dsimp only
        by_cases isWake : command = ascii "ROOM.WAKE"
        · rw [if_pos isWake]
          exact lives_wakeRoom db now name
        · rw [if_neg isWake]
          by_cases unknown : name ∉ db.rooms
          · rw [if_pos unknown]
            exact .refl
          · rw [if_neg unknown]
            by_cases isHibernate : command = ascii "ROOM.HIBERNATE"
            · rw [if_pos isHibernate]
              by_cases same : name = defaultRoom
              · rw [if_pos same]
                exact .refl
              · rw [if_neg same]
                exact lives_hibernate db same
            · rw [if_neg isHibernate]
              by_cases isInfo : command = ascii "ROOM.INFO"
              · rw [if_pos isInfo]
                exact .refl
              · rw [if_neg isInfo]
                exact .refl
    | [] | [_] | _ :: _ :: _ :: _ => exact .refl

theorem lives_collectTombstones (db : Db) : Lives db db.collectTombstones := by
  unfold collectTombstones
  dsimp only
  by_cases waits : db.config.peerCount = 0 ∨ db.heardFrontiers.length < db.config.peerCount ∨
      db.heardFrontiers.foldl min FsUtil.uint64Max ≤ db.watermark
  · rw [if_pos waits]
    exact .refl
  · rw [if_neg waits]
    exact lives_elsewhere rfl rfl rfl rfl

theorem lives_handleReplfrontier (db : Db) (now : Nat) (args : List Bytes) :
    Lives db (db.handleReplfrontier now args).1 := by
  unfold handleReplfrontier
  dsimp only
  match args with
  | [head, nodeArg, frontierArg] =>
      dsimp only
      split
      · split
        · exact .refl
        · refine Lives.trans ?_ (lives_collectTombstones _)
          exact lives_elsewhere rfl rfl rfl rfl
      · exact .refl
  | [] | [_] | [_, _] | _ :: _ :: _ :: _ :: _ => exact .refl

theorem lives_startBackgroundRewrite (db : Db) : Lives db db.startBackgroundRewrite.1 := by
  unfold startBackgroundRewrite
  cases db.rewriteChild with
  | some child => exact .refl
  | none => exact lives_elsewhere rfl rfl rfl rfl

theorem lives_finishBackgroundRewrite (db : Db) : Lives db db.finishBackgroundRewrite := by
  rcases finishBackgroundRewrite_cases db with same | ⟨_, _, _, ⟨_, dropped⟩ | ⟨_, committed⟩⟩
  · rw [same]
    exact .refl
  · rw [dropped]
    exact lives_elsewhere rfl rfl rfl rfl
  · rw [committed]
    exact lives_elsewhere rfl rfl rfl rfl

theorem lives_beginCommand (db : Db) (call : Call) : Lives db (db.beginCommand call) := by
  rcases beginCommand_cases db call with same | ⟨_, started⟩
  · rw [same]
    exact lives_finishBackgroundRewrite db
  · rw [started]
    exact (lives_finishBackgroundRewrite db).trans (lives_startBackgroundRewrite _)

theorem lives_runConnection (db : Db) (call : Call) (name : Bytes) (kind : ConnectionCommand) :
    Lives db (db.runConnection call name kind).1 := by
  cases kind with
  | ping => exact .refl
  | echo => exact .refl
  | command => exact .refl
  | room => exact lives_handleRoom db _ _ _
  | rooms => exact lives_handleRoomAdmin db _ _ name _
  | replfrontier => exact lives_handleReplfrontier db _ _
  | rewriteaof => exact lives_startBackgroundRewrite db
  | compact => exact lives_elsewhere rfl rfl rfl rfl

theorem lives_executeInRoom (db : Db) (call : Call) (name : Bytes) (kind : RoomCommand) :
    Lives db (db.executeInRoom call name kind).1 := by
  have opened := (lives_findRoom db name).trans (lives_activate _ call.now name)
  unfold executeInRoom executeInRoomWith
  dsimp only
  rcases equal : (db.findRoom name).activate call.now name false with ⟨woken, _ | _⟩
  · rw [equal] at opened
    exact opened
  · have awake := awake_activate (db.findRoom name) (congrArg Prod.snd equal)
    rw [equal] at opened awake
    have ran : Charges name woken _ :=
      (charges_runInRoom call.now call.resp3 call.args kind).trans
        (charges_evictDespisedKeys call.victims)
    exact opened.trans (ran.lives awake)

theorem lives_dispatch (db : Db) (call : Call) (name : Bytes) :
    Lives db (db.dispatch call name).1 := by
  have known := lives_setClientRoom db call.clientFd (db.clientRoom call.clientFd)
  unfold dispatch
  dsimp only
  split
  · exact known
  · exact known.trans (lives_runConnection _ _ _ _)
  · by_cases subscribed : call.subscribed = true
    · rw [if_pos subscribed]
      exact known
    · rw [if_neg subscribed]
      exact known.trans (lives_runConnection _ _ _ _)
  · by_cases subscribed : call.subscribed = true
    · rw [if_pos subscribed]
      exact known
    · rw [if_neg subscribed]
      exact known.trans (lives_executeInRoom _ _ _ _)

theorem lives_execute (db : Db) (call : Call) : Lives db (db.execute call).1 := by
  unfold execute
  cases call.args with
  | nil => exact .refl
  | cons _ _ => exact (lives_beginCommand db call).trans (lives_dispatch _ _ _)

theorem lives_childStep (db : Db) (now : Nat) : Lives db (db.childStep now) := by
  rcases childStep_fields db now with ⟨snapshots, child, equal, _⟩
  rw [equal]
  exact lives_elsewhere rfl rfl rfl rfl

/-! ## Recovery -/

theorem charges_replayPut (db : Db) (record : AofRecord) (key value : Bytes) (ts node : Nat) :
    Charges record.room db (db.replayPut record key value ts node) := by
  unfold replayPut
  cases found : (db.keysOf record.room).lookup key with
  | some old => exact (charges_assign found).trans (charges_clock _)
  | none =>
      have ready : ((db.insert record.room key).keysOf record.room).lookup key = some {} := by
        rw [insert, keysOf_putKeys, if_pos rfl, FiniteMap.lookup_insert_if, if_pos rfl]
      exact ((charges_insert found).trans (charges_assign ready)).trans (charges_clock _)

theorem charges_replayCommand (db : Db) (record : AofRecord) (command : Bytes) :
    Charges record.room db (db.replayCommand record command) := by
  unfold replayCommand
  dsimp only
  by_cases merges : command = ascii "CRDTMERGE" ∧ 5 ≤ record.args.length
  · rw [if_pos merges]
    split
    · split
      · exact .refl
      · exact charges_replayPut db record _ _ _ _
    · exact .refl
  · rw [if_neg merges]
    by_cases sets : command = ascii "SET" ∧ 3 ≤ record.args.length
    · rw [if_pos sets]
      exact charges_replayPut db record _ _ _ _
    · rw [if_neg sets]
      by_cases isMset : command = ascii "MSET"
      · rw [if_pos isMset]
        induction pairsOf record.args.tail generalizing db with
        | nil => exact .refl
        | cons pair rest induction =>
            exact (charges_replayPut db record _ _ _ _).trans (induction _)
      · rw [if_neg isMset]
        by_cases expires : (command = ascii "EXPIRE" ∨ command = ascii "PEXPIRE" ∨
            command = ascii "PERSIST") ∧ 2 ≤ record.args.length
        · rw [if_pos expires]
          unfold replayDeadline
          cases found : (db.keysOf record.room).lookup (record.args[1]?.getD []) with
          | none => exact .refl
          | some _ => exact charges_assign found
        · rw [if_neg expires]
          by_cases deletes : command = ascii "DEL" ∧ 2 ≤ record.args.length ∨
              command = ascii "CRDTDEL" ∧ 4 ≤ record.args.length
          · rw [if_pos deletes]
            exact ((charges_erase _).trans (charges_setTomb _ _)).trans (charges_clock _)
          · rw [if_neg deletes]
            exact .refl

theorem accounted_replayRecord (accounted : db.Accounted) (now : Nat) (record : AofRecord) :
    (replayRecord now db record).Accounted := by
  unfold replayRecord
  cases record.args with
  | nil => exact accounted
  | cons _ _ =>
      have found := (lives_findRoom db record.room).accounted accounted
      exact (charges_replayCommand _ record _).accounted
        (accounted_activate found now record.room true)
        (awake_activate _ (activate_overBudget _ now record.room))

theorem accounted_replayLog (accounted : db.Accounted) (now : Nat) (log : List AofRecord) :
    (log.foldl (replayRecord now) db).Accounted := by
  induction log generalizing db with
  | nil => exact accounted
  | cons record rest induction => exact induction (accounted_replayRecord accounted now record)

/-- Recovery may go over the budget of active rooms, but it counts them. -/
theorem accounted_recover (config : Config) (aof : List AofRecord)
    (snapshots : FiniteMap Bytes (FiniteMap Bytes Record)) (now : Nat) :
    (recover config aof snapshots now).Accounted := by
  have empty : ({ config, aof, snapshots } : Db).Accounted :=
    ⟨fun _ => rfl, fun _ _ => rfl, rfl, rfl, rfl⟩
  exact (accounted_replayLog empty now aof).elsewhere rfl rfl rfl rfl

theorem leads_replayRecord (db : Db) (now : Nat) (record : AofRecord) (name : Bytes) :
    (db.slot name).Leads ((replayRecord now db record).slot name) := by
  unfold replayRecord
  cases record.args with
  | nil => exact .refl
  | cons _ _ =>
      have woken : (db.slot name).Leads
          (((db.findRoom record.room).activate now record.room true).1.slot name) :=
        ((lives_findRoom db record.room).leads name).trans
          (leads_activate _ now record.room true name)
      exact woken.trans (leads_of_state ((charges_replayCommand _ record _).state name))

theorem leads_replayLog (db : Db) (now : Nat) (log : List AofRecord) (name : Bytes) :
    (db.slot name).Leads ((log.foldl (replayRecord now) db).slot name) := by
  induction log generalizing db with
  | nil => exact .refl
  | cons record rest induction =>
      exact (leads_replayRecord db now record name).trans (induction _)

/-- A room starts asleep, and replay wakes it as a command would, only over the budget. -/
theorem leads_recover (config : Config) (aof : List AofRecord)
    (snapshots : FiniteMap Bytes (FiniteMap Bytes Record)) (now : Nat) (name : Bytes) :
    Slot.Leads { phase := .sleeping, activeRooms := 0 }
      ((recover config aof snapshots now).slot name) := by
  have replayed := leads_replayLog { config, aof, snapshots } now aof name
  exact replayed.trans (leads_of_state rfl)

/-! ## Runs -/

theorem lives_occur (db : Db) (occurrence : Occurrence) (same : occurrence.InProcess) :
    Lives db (db.occur occurrence) := by
  cases occurrence with
  | snapshotFails name => exact lives_hibernateFailed db name
  | event event =>
      cases event with
      | command call => exact lives_execute db call
      | cleanup now clientFd => exact lives_elsewhere rfl rfl rfl rfl
      | cleanExpired now name => exact lives_cleanExpiredKeys db now name
      | hibernateInactive now name => exact lives_hibernateInactive db now name
      | childStep now => exact lives_childStep db now
      | childFail now => exact lives_elsewhere rfl rfl rfl rfl
      | restart now => exact same.elim

theorem lives_occurAll (db : Db) (occurrences : List Occurrence)
    (same : ∀ occurrence ∈ occurrences, occurrence.InProcess) :
    Lives db (db.occurAll occurrences) := by
  induction occurrences generalizing db with
  | nil => exact .refl
  | cons occurrence rest induction =>
      exact (lives_occur db occurrence (same occurrence List.mem_cons_self)).trans
        (induction _ fun other member => same other (List.mem_cons_of_mem _ member))

theorem Accounted.occurred (accounted : db.Accounted) (occurrences : List Occurrence) :
    (db.occurAll occurrences).Accounted := by
  induction occurrences generalizing db with
  | nil => exact accounted
  | cons occurrence rest induction =>
      apply induction
      rcases occurrence.inProcess_or_restart with same | ⟨now, rfl⟩
      · exact (lives_occur db occurrence same).accounted accounted
      · exact accounted_recover _ _ _ now

/-! ## Every reachable state -/

theorem Accounted.bytes_nonneg (accounted : db.Accounted) (name : Bytes) :
    0 ≤ (db.room name).bytes := by
  rw [accounted.bytes name, keysCost_eq]
  apply FiniteMap.total_nonneg
  intro key record
  exact Int.natCast_nonneg _

/-- The rooms that the registry lists are those that `room` finds. -/
theorem room_of_lookup {room : Room} (registered : db.rooms.lookup name = some room) :
    db.room name = room := by
  rw [Db.room, registered]
  rfl

theorem Accounted.resident_nonneg (accounted : db.Accounted) :
    0 ≤ db.metrics.residentBytes := by
  have listed : roomBytes db.rooms = db.rooms.total fun name _ => (db.room name).bytes := by
    apply FiniteMap.total_congr
    intro name room registered
    rw [room_of_lookup registered]
  rw [accounted.resident, listed]
  apply FiniteMap.total_nonneg
  intro name _
  exact accounted.bytes_nonneg name

theorem Accounted.count_nonneg (accounted : db.Accounted) : 0 ≤ db.metrics.keysInRam := by
  rw [accounted.count]
  apply FiniteMap.total_nonneg
  intro _ room
  exact Int.natCast_nonneg _

/-- Without keys in RAM nothing is charged. -/
theorem Accounted.nothing (accounted : db.Accounted) (empty : ∀ name, (db.room name).keys = ∅) :
    (∀ name, (db.room name).bytes = 0) ∧ db.metrics.residentBytes = 0 ∧
      db.metrics.keysInRam = 0 := by
  have free : ∀ name, (db.room name).bytes = 0 := by
    intro name
    rw [accounted.bytes name, keysCost_eq, empty name, FiniteMap.total_empty]
  refine ⟨free, ?_, ?_⟩
  · rw [accounted.resident]
    apply FiniteMap.total_zero
    intro name room registered
    rw [← room_of_lookup registered, free name]
  · rw [accounted.count]
    apply FiniteMap.total_zero
    intro name room registered
    rw [← room_of_lookup registered, empty name]
    rfl

theorem awakeRooms_eq (rooms : FiniteMap Bytes Room) :
    awakeRooms rooms =
      (rooms.toPairs.filter fun entry => entry.2.state ≠ .sleeping).length := by
  rw [awakeRooms, FiniteMap.total]
  induction rooms.toPairs with
  | nil => rfl
  | cons entry rest induction =>
      rw [List.map_cons, List.sum_cons, induction]
      cases state : entry.2.state with
      | sleeping =>
          rw [List.filter_cons_of_neg (by simp [state])]
          simp
      | active =>
          rw [List.filter_cons_of_pos (by simp [state]), List.length_cons]
          simp
          omega

/-- The figures are those of what is in RAM, whatever happens to the node. -/
theorem figures_exact (config : Config) (aof : List AofRecord)
    (snapshots : FiniteMap Bytes (FiniteMap Bytes Record)) (start : Nat)
    (occurrences : List Occurrence) :
    let db := (recover config aof snapshots start).occurAll occurrences
    (∀ name, (db.room name).bytes = (db.room name).keysCost) ∧
      db.metrics.residentBytes = (db.rooms.toPairs.map fun entry => entry.2.bytes).sum ∧
      db.metrics.keysInRam =
        (db.rooms.toPairs.map fun entry => (entry.2.keys.toPairs.length : Int)).sum ∧
      (∀ name, 0 ≤ (db.room name).bytes) ∧ 0 ≤ db.metrics.residentBytes ∧
      0 ≤ db.metrics.keysInRam ∧
      ((∀ name, (db.room name).keys = ∅) →
        (∀ name, (db.room name).bytes = 0) ∧ db.metrics.residentBytes = 0 ∧
          db.metrics.keysInRam = 0) := by
  intro db
  have accounted : db.Accounted :=
    (accounted_recover config aof snapshots start).occurred occurrences
  exact ⟨accounted.bytes, accounted.resident, accounted.count, accounted.bytes_nonneg,
    accounted.resident_nonneg, accounted.count_nonneg, accounted.nothing⟩

/-- The budget of active rooms over the life of a process. -/
theorem active_rooms_bounded (config : Config) (aof : List AofRecord)
    (snapshots : FiniteMap Bytes (FiniteMap Bytes Record)) (start : Nat)
    (front back : List Occurrence) (same : ∀ occurrence ∈ front ++ back, occurrence.InProcess) :
    let recovered := recover config aof snapshots start
    let before := recovered.occurAll front
    let db := before.occurAll back
    (db.activeRooms =
        (db.rooms.toPairs.filter fun entry => entry.2.state ≠ .sleeping).length) ∧
      (∀ name, (db.slot name).phase ≠ .sleeping → (db.slot name).phase = .active) ∧
      (∀ name, (db.room name).state = .sleeping → (db.room name).keys = ∅) ∧
      db.activeRooms ≤ max maxActiveRooms recovered.activeRooms ∧
      ((before.room defaultRoom).state = .active → (db.room defaultRoom).state = .active) := by
  intro recovered before db
  have first : Lives recovered before :=
    lives_occurAll recovered front fun occurrence member =>
      same occurrence (List.mem_append_left back member)
  have second : Lives before db :=
    lives_occurAll before back fun occurrence member =>
      same occurrence (List.mem_append_right front member)
  have accounted : db.Accounted :=
    (first.trans second).accounted (accounted_recover config aof snapshots start)
  refine ⟨?_, ?_, accounted.asleep, (first.trans second).slots, second.pinned⟩
  · have counted := accounted.active
    rw [awakeRooms_eq] at counted
    exact Int.ofNat.inj counted
  · intro name awake
    have leads : Slot.Leads { phase := .sleeping, activeRooms := 0 } (db.slot name) :=
      (leads_recover config aof snapshots start name).trans ((first.trans second).leads name)
    exact (leads.settled (.inl rfl)).resolve_left awake

/-- A client uses its room, and another room whose snapshot then fails. -/
theorem active_rooms_sample :
    ((((fresh {} 0).occurAll
        [.event (clientCall 1 [ascii "SET", ascii "k", ascii "v"])]).occurAll
      [.event (clientCall 2 [ascii "ROOM.WAKE", ascii "other"]),
        .snapshotFails (ascii "other")]).activeRooms ≤ max maxActiveRooms 0) := by
  refine (active_rooms_bounded {} [] ∅ 0 _ _ ?_).2.2.2.1
  intro occurrence member
  simp only [List.cons_append, List.nil_append, List.mem_cons, List.not_mem_nil,
    or_false] at member
  rcases member with rfl | rfl | rfl <;> trivial

end Db

end SomniumDB
