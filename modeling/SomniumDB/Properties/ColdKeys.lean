import SomniumDB.Abstract.ColdStorage

/-! # A key is in RAM or in the cold index, never in both

A command that writes a key right after it failed to read it from cold storage
puts the key in RAM and leaves the old entry in the index. As long as no
command does that, a key is in one place, whatever else fails; and once its
record is deleted, or has expired in RAM, nothing brings an older value back
from cold storage. -/

namespace SomniumDB

open Bytes

namespace Db

variable {config : Config} {db : Db}

/-- Only a command that follows a failed read can put a key in two places. -/
def CarefulEvent (db : Db) (event : FaultyEvent) : Prop :=
  ∀ call, event.event = .command call →
    (db.beginCommand call).CarefulCall call event.faults

/-- No command of the run writes a key right after failing to read it. -/
def CarefulFaults : Db → List FaultyEvent → Prop
  | _, [] => True
  | db, event :: rest => db.CarefulEvent event ∧ CarefulFaults (db.stepFaulty event) rest

theorem carefulFaults_append {front back : List FaultyEvent} :
    CarefulFaults db (front ++ back) ↔
      CarefulFaults db front ∧ CarefulFaults (db.runFaulty front) back := by
  induction front generalizing db with
  | nil => simp [CarefulFaults]
  | cons event rest induction => simp [CarefulFaults, induction, and_assoc]

theorem executeFaulty_eq {call : Call} {first : Bytes} {rest : List Bytes}
    (args : call.args = first :: rest) (faults : ColdFaults) :
    db.executeFaulty call faults =
      (db.beginCommand call).dispatchFaulty call faults (upper first) := by
  unfold executeFaulty
  rw [args]

/-- Every event of a careful run keeps the invariant. -/
theorem Sane.steppedFaulty (sane : Sane config db) {event : FaultyEvent}
    (careful : db.CarefulEvent event) : Sane config (db.stepFaulty event) := by
  rcases event with ⟨event, faults⟩
  cases event with
  | command call =>
      cases args : call.args with
      | nil =>
          simp only [stepFaulty, executeFaulty, args]
          exact sane
      | cons first rest =>
          simp only [stepFaulty, executeFaulty_eq args]
          exact (handled_dispatchFaulty (sane.begun call) (by rw [args]; rfl)
            (careful call rfl)).sane
  | cleanup now clientFd => exact sane.stepped (.cleanup now clientFd)
  | cleanExpired now name => exact sane.stepped (.cleanExpired now name)
  | hibernateInactive now name => exact sane.stepped (.hibernateInactive now name)
  | childStep now => exact sane.stepped (.childStep now)
  | childFail now => exact sane.stepped (.childFail now)
  | restart now => exact sane.stepped (.restart now)

theorem Sane.ranFaulty (sane : Sane config db) {events : List FaultyEvent}
    (careful : CarefulFaults db events) : Sane config (db.runFaulty events) := by
  induction events generalizing db with
  | nil => exact sane
  | cons event rest induction => exact induction (sane.steppedFaulty careful.1) careful.2

/-! ## Keys that are gone -/

/-- Nothing is kept under the place, or something that has expired. -/
def Absent (db : Db) (now : Nat) (place : Place) : Prop :=
  ∀ record, db.held place = some record → record.expired now = true

/-- The records that an event appends. -/
def writtenBy (db : Db) (event : FaultyEvent) : List AofRecord :=
  match event.event with
  | .command call => db.appendedFaulty call event.faults
  | _ => []

/-- A record that has expired, or is gone, does not come back without a write. -/
theorem Absent.retained {now : Nat} {place : Place} (absent : db.Absent now place)
    {held : Place → Option Record} {log new : List AofRecord} {after : Db}
    (lost : ∀ place, held place = db.held place ∨ held place = none)
    (retains : Node.Retains { db.node with held, log } after.node new)
    (unwritten : ¬ Puts new place) : after.Absent now place := by
  intro record found
  rcases retains.held place record found with ⟨before, here, deadline⟩ | put
  · rcases lost place with same | gone
    · have past := absent before (same.symm.trans here)
      simpa only [Record.expired, deadline] using past
    · exact absurd (gone.symm.trans here) (by simp)
  · exact absurd put unwritten

theorem Absent.stepped (sane : Sane config db) {now : Nat} {place : Place}
    (absent : db.Absent now place) {event : FaultyEvent} (careful : db.CarefulEvent event)
    (alive : ∀ now, event.event ≠ .restart now) (unwritten : ¬ Puts (db.writtenBy event) place) :
    (db.stepFaulty event).Absent now place := by
  rcases event with ⟨event, faults⟩
  have others : (∀ call, event ≠ .command call) → (db.step event).Absent now place := by
    intro quiet
    rcases step_evolves sane event alive with ⟨held, log, lost, steps, grown⟩
    rcases Node.retains_steps steps with ⟨new, retains⟩
    refine absent.retained (fun other => (lost other).imp id fun gone => gone.2.2.2) retains ?_
    have nothing : db.appendedBy event = [] := by
      cases event with
      | command call => exact absurd rfl (quiet call)
      | _ => rfl
    rw [nothing] at grown
    have empty : new = [] := List.append_cancel_left (retains.log.symm.trans grown)
    rw [empty]
    exact not_puts_nil place
  cases event with
  | command call =>
      cases args : call.args with
      | nil =>
          simp only [stepFaulty, executeFaulty, args]
          exact absent
      | cons first rest =>
          rcases node_beginCommand sane call with ⟨log, started⟩
          have handled := handled_dispatchFaulty (sane.begun call) (by rw [args]; rfl)
            (careful call rfl)
          rcases handled.retains with ⟨new, retains⟩
          have written : db.appendedFaulty call faults = new := by
            unfold appendedFaulty
            rw [args]
            dsimp only
            rw [executeFaulty_eq args]
            have log : ((db.beginCommand call).dispatchFaulty call faults (upper first)).1.aof =
                (db.beginCommand call).aof ++ new := retains.log
            rw [log, List.drop_left]
          rw [started] at retains
          simp only [stepFaulty, executeFaulty_eq args]
          refine absent.retained (fun _ => .inl rfl) retains ?_
          rw [← written]
          exact unwritten
  | cleanup now clientFd => exact others (by simp)
  | cleanExpired now name => exact others (by simp)
  | hibernateInactive now name => exact others (by simp)
  | childStep now => exact others (by simp)
  | childFail now => exact others (by simp)
  | restart now => exact absurd rfl (alive now)

/-- No event of the run writes to the place, and the node is not restarted. -/
def Unwritten (place : Place) : Db → List FaultyEvent → Prop
  | _, [] => True
  | db, event :: rest =>
      ¬ Puts (db.writtenBy event) place ∧ (∀ now, event.event ≠ .restart now) ∧
        Unwritten place (db.stepFaulty event) rest

theorem Absent.ran (sane : Sane config db) {now : Nat} {place : Place}
    (absent : db.Absent now place) {events : List FaultyEvent}
    (careful : CarefulFaults db events) (unwritten : Unwritten place db events) :
    (db.runFaulty events).Absent now place := by
  induction events generalizing db with
  | nil => exact absent
  | cons event rest induction =>
      exact induction (sane.steppedFaulty careful.1)
        (absent.stepped sane careful.1 unwritten.2.1 unwritten.1) careful.2 unwritten.2.2

/-- A room with records in RAM is awake. -/
theorem awake_of_ram (wellFormed : db.WellFormed) {name key : Bytes} {record : Record}
    (ram : (db.keysOf name).lookup key = some record) : db.Awake name := by
  cases state : (db.room name).state with
  | active => exact state
  | sleeping =>
      rw [wellFormed.asleep name state] at ram
      cases ram

/-- What is absent is not found, whether the cold file can be read or not. -/
theorem lookup_of_absent (wellFormed : db.WellFormed) {now : Nat} {name key : Bytes}
    (absent : db.Absent now (name, key)) (reads : List Bool) :
    (Faulty.lookup ⟨db, reads⟩ now name key).2 = none := by
  by_cases blind : Faulty.Blind ⟨db, reads⟩ name key
  · rw [Faulty.lookup_of_blind blind]
  · obtain ⟨rest, looked⟩ : ∃ rest, Faulty.lookup ⟨db, reads⟩ now name key = _ :=
      Faulty.lookup_of_clear blind
    rw [looked]
    unfold lookup
    cases ram : (db.keysOf name).lookup key with
    | some record =>
        have awake := awake_of_ram wellFormed ram
        have past := absent record (by simp [held, resident_of_awake awake, ram])
        simp [past]
    | none =>
        cases cold : db.cold.find name key with
        | none => rfl
        | some record =>
            have outside : (db.resident name).lookup key = none := by
              cases present : (db.resident name).lookup key with
              | none => rfl
              | some other =>
                  have missing := wellFormed.exclusive name key other present
                  rw [missing] at cold
                  cases cold
            have past := absent record (by simp [held, outside, cold])
            simp [past]

/-- The record of the key has been removed at the end of the run `front`: it is
in RAM and has expired, or the last event is a `DEL` that deleted it. -/
def Removed (db : Db) (front : List FaultyEvent) (now : Nat) (name key : Bytes) : Prop :=
  (∃ record, ((db.runFaulty front).keysOf name).lookup key = some record ∧
      record.expired now = true) ∨
    ∃ earlier call faults first record,
      front = earlier ++ [{ event := .command call, faults }] ∧
      call.args.head? = some first ∧ Command.named (upper first) = .inRoom .del ∧
      record ∈ (db.runFaulty earlier).appendedFaulty call faults ∧
      record.room = name ∧ record.args = [ascii "DEL", key]

theorem absent_of_removed (sane : Sane config db) {front : List FaultyEvent} {now : Nat}
    {name key : Bytes} (careful : CarefulFaults db front)
    (removed : db.Removed front now name key) :
    (db.runFaulty front).Absent now (name, key) := by
  rcases removed with ⟨record, ram, past⟩ |
    ⟨earlier, call, faults, first, record, rfl, head, named, member, room, args⟩
  · have wellFormed := (sane.ranFaulty careful).wellFormed
    have awake := awake_of_ram wellFormed ram
    intro other found
    have same : (db.runFaulty front).held (name, key) = some record := by
      simp [held, resident_of_awake awake, ram]
    obtain rfl : record = other := Option.some.inj (same.symm.trans found)
    exact past
  · have begun := ((sane.ranFaulty (carefulFaults_append.mp careful).1).begun call)
    rcases List.head?_eq_some_iff.mp head with ⟨rest, callArgs⟩
    unfold appendedFaulty at member
    rw [callArgs] at member
    dsimp only at member
    rw [executeFaulty_eq callArgs] at member
    have gone := gone_of_del begun named member args
    rw [room] at gone
    rw [runFaulty_append]
    intro other found
    simp only [runFaulty_cons, runFaulty_nil, stepFaulty, executeFaulty_eq callArgs] at found
    exact absurd (gone.symm.trans found) (by simp)

theorem Absent.later {now later : Nat} {place : Place} (absent : db.Absent now place)
    (le : now ≤ later) : db.Absent later place :=
  fun record found => Record.expired_mono le (absent record found)

/-! ## Commands whose reads succeed -/

theorem pairsRead_reliable {now version : Nat} {name : Bytes} (pairs : List (Bytes × Bytes)) :
    Faulty.PairsRead now name version ⟨db, []⟩ pairs := by
  induction pairs generalizing db with
  | nil => trivial
  | cons pair rest induction =>
      refine ⟨Faulty.not_blind_nil _, ?_⟩
      rw [Faulty.lookup_reliable]
      exact induction

/-- A command whose reads all succeed is careful. -/
theorem careful_reliable {now : Nat} {name : Bytes} (args : List Bytes) (kind : RoomCommand) :
    Faulty.Careful ⟨db, []⟩ now name args kind := by
  cases kind with
  | set => exact fun _ _ _ _ _ _ _ blind => absurd blind (Faulty.not_blind_nil _)
  | mset =>
      unfold Faulty.Careful Faulty.MsetCareful
      rw [Faulty.overwritten_reliable]
      exact pairsRead_reliable _
  | crdtmerge => exact fun _ _ _ _ _ _ _ _ _ _ blind => absurd blind (Faulty.not_blind_nil _)
  | _ => trivial

theorem carefulEvent_reliable (event : Event) : db.CarefulEvent { event } :=
  fun _ _ _ _ _ _ _ => careful_reliable _ _

/-- Reading and deleting are careful whatever fails. -/
theorem carefulEvent_of_kind {call : Call} {first : Bytes} {kind : RoomCommand}
    (faults : ColdFaults) (head : call.args.head? = some first)
    (named : Command.named (upper first) = .inRoom kind)
    (harmless : kind ≠ .set ∧ kind ≠ .mset ∧ kind ≠ .crdtmerge) :
    db.CarefulEvent { event := .command call, faults } := by
  intro other same
  cases same
  intro other otherKind otherHead otherNamed _
  obtain rfl : first = other := Option.some.inj (head.symm.trans otherHead)
  obtain rfl : kind = otherKind := by
    rw [named] at otherNamed
    cases otherNamed
    rfl
  cases kind with
  | set => exact absurd rfl harmless.1
  | mset => exact absurd rfl harmless.2.1
  | crdtmerge => exact absurd rfl harmless.2.2
  | _ => trivial

end Db

open Db

/-- Whatever reads, writes and renamings fail in cold storage: as long as no
command writes a key right after failing to read it, no key is in RAM and in the
index, and a key that was deleted or has expired in RAM is not found again
before it is written again. -/
theorem keys_in_one_place (config : Config) (start : Nat) (front back : List FaultyEvent)
    (careful : CarefulFaults (fresh config start) (front ++ back)) :
    (∀ name key record,
      (((fresh config start).runFaulty front).keysOf name).lookup key = some record →
      ((fresh config start).runFaulty front).cold.find name key = none) ∧
    ∀ name key now, (fresh config start).Removed front now name key →
      Unwritten (name, key) ((fresh config start).runFaulty front) back →
      ∀ later reads, now ≤ later →
        (Faulty.lookup ⟨(fresh config start).runFaulty (front ++ back), reads⟩ later name
          key).2 = none := by
  have sane := sane_fresh config start
  rcases carefulFaults_append.mp careful with ⟨carefulFront, carefulBack⟩
  have saneFront := sane.ranFaulty carefulFront
  refine ⟨?_, ?_⟩
  · intro name key record ram
    have awake := awake_of_ram saneFront.wellFormed ram
    exact saneFront.wellFormed.exclusive name key record
      (by rw [resident_of_awake awake]; exact ram)
  · intro name key now removed unwritten later reads le
    have absent := (absent_of_removed sane carefulFront removed).ran saneFront carefulBack
      unwritten
    rw [runFaulty_append]
    exact lookup_of_absent (saneFront.ranFaulty carefulBack).wellFormed (absent.later le) reads

/-- A key is written, evicted by the next one, and deleted after a read of it
has failed once. -/
def evictedKey : List FaultyEvent :=
  [{ event := clientCall 1 [ascii "SET", ascii "k", ascii "a"] },
    { event := .command
        { clientFd := 5, args := [ascii "SET", ascii "j", ascii "b"], now := 2
          victims := [ascii "k"] } },
    { event := clientCall 3 [ascii "GET", ascii "k"], faults := { reads := [false] } },
    { event := clientCall 4 [ascii "DEL", ascii "k"] }]

def smallRooms : Config := { maxKeys := 1 }

theorem careful_evictedKey :
    CarefulFaults (fresh smallRooms 0) (evictedKey ++
      [{ event := clientCall 5 [ascii "GET", ascii "k"] }]) := by
  refine ⟨carefulEvent_reliable _, carefulEvent_reliable _, ?_, carefulEvent_reliable _,
    carefulEvent_reliable _, trivial⟩
  have named : Command.named (upper (ascii "GET")) = .inRoom .get := by decide
  exact carefulEvent_of_kind _ rfl named (by simp)

theorem keys_in_one_place_sample :
    (Faulty.lookup ⟨(fresh smallRooms 0).runFaulty (evictedKey ++
      [{ event := clientCall 5 [ascii "GET", ascii "k"] }]), []⟩ 6 defaultRoom
        (ascii "k")).2 = none := by
  refine (keys_in_one_place smallRooms 0 evictedKey _ careful_evictedKey).2 defaultRoom
    (ascii "k") 4 ?_ ?_ 6 [] (by decide)
  · have deleted : ((fresh smallRooms 0).runFaulty (evictedKey.take 3)).appendedFaulty
        { clientFd := 5, args := [ascii "DEL", ascii "k"], now := 4 } {} =
        [{ room := defaultRoom, args := [ascii "DEL", ascii "k"]
           timestampMs := 262144, nodeId := 1 }] := by decide +kernel
    refine .inr ⟨evictedKey.take 3, _, _, ascii "DEL",
      { room := defaultRoom, args := [ascii "DEL", ascii "k"]
        timestampMs := 262144, nodeId := 1 }, rfl, rfl, by decide, ?_, rfl, rfl⟩
    rw [deleted]
    exact List.mem_singleton_self _
  · have silent : ((fresh smallRooms 0).runFaulty evictedKey).writtenBy
        { event := clientCall 5 [ascii "GET", ascii "k"] } = [] := by decide +kernel
    refine ⟨?_, by simp [clientCall], trivial⟩
    rw [silent]
    exact not_puts_nil _

/-- A `SET` that fails to read the evicted key writes it to RAM and leaves the
old value in the index; once the new one is deleted, the old one is back. -/
theorem key_in_ram_and_cold :
    let db := (fresh smallRooms 0).runFaulty (evictedKey.take 2 ++
      [{ event := clientCall 3 [ascii "SET", ascii "k", ascii "c"]
         faults := { reads := [false] } }])
    let deleted := db.runFaulty [{ event := clientCall 4 [ascii "DEL", ascii "k"] }]
    ((db.keysOf defaultRoom).lookup (ascii "k")).map Record.value = some (ascii "c") ∧
      (db.cold.find defaultRoom (ascii "k")).map Record.value = some (ascii "a") ∧
      (Faulty.lookup ⟨deleted, []⟩ 5 defaultRoom (ascii "k")).2.map Record.value =
        some (ascii "a") := by
  decide +kernel

end SomniumDB
