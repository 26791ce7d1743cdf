import SomniumDB.Abstract.Dump

/-! # Replaying a dump of the state

A rewrite replaces the log by a dump of the state. Replay of the dump into an
empty database gives the state back, except where a tombstone stands beside a
record: the dump writes the tombstones last, and replay applies them without
comparing versions. -/

namespace SomniumDB

open Bytes

namespace Db

/-- The dump taken at `now`, replayed at any later time into an empty database,
shows what the node shows, and has the tombstones of every key without a
record. -/
def RoundTrips (db : Db) (now : Nat) : Prop :=
  ∀ later, now ≤ later → ∀ place,
    visible later ((recover db.config (db.dumpState now) ∅ later).held place) =
        visible later (db.held place) ∧
      (visible now (db.held place) = none →
        (recover db.config (db.dumpState now) ∅ later).findTomb place.1 place.2 =
          db.findTomb place.1 place.2)

/-- What a dump depends on. -/
structure Restorable (db : Db) (now : Nat) : Prop where
  /-- No key has both a record and a tombstone. -/
  apart : ∀ place, visible now (db.held place) ≠ none → db.findTomb place.1 place.2 = none
  /-- No tombstone of an absent key has a timestamp in the old format. -/
  hybrid : ∀ place version, visible now (db.held place) = none →
    db.findTomb place.1 place.2 = some version → Hlc.kLegacyLimit ≤ version.ts
  /-- Every room whose snapshot has an unexpired record is in the registry. -/
  registered : ∀ name key, name ∉ db.rooms →
    visible now ((db.resident name).lookup key) = none

variable {db : Db} {now later : Nat}

/-- The records of the dump replayed. -/
theorem held_recover_dumpState (wellFormed : db.WellFormed) (now later : Nat) (place : Place) :
    (recover db.config (db.dumpState now) ∅ later).held place =
      if (db.findTomb place.1 place.2).isSome then none
      else ((db.dumped place).filter fun record => !record.expired now).map
        Record.normalized := by
  rcases recovered_recover db.config (db.dumpState now) ∅ later fun _ => sound_dumpState with
    ⟨⟨fresh, _, _, equal⟩, _⟩
  have held := congrArg (fun node => node.held place) equal
  exact held.trans (replayed_dumpState wellFormed _ place rfl)

/-- The dump replayed, in terms of the state dumped. -/
theorem recover_dumpState {config : Config} (sane : Sane config db)
    (peers : config.peerCount ≠ 0) (now later : Nat) (place : Place) :
    (recover db.config (db.dumpState now) ∅ later).held place =
        (if (db.findTomb place.1 place.2).isSome then none
        else ((db.dumped place).filter fun record => !record.expired now).map
          Record.normalized) ∧
      (recover db.config (db.dumpState now) ∅ later).findTomb place.1 place.2 =
        (db.findTomb place.1 place.2).map fun version =>
          ⟨Hlc.normalize version.ts, version.node⟩ := by
  rcases recovered_recover db.config (db.dumpState now) ∅ later fun _ => sound_dumpState with
    ⟨⟨fresh, _, _, equal⟩, _⟩
  have tomb := congrArg (fun node => node.tomb place) equal
  rw [← sane.config] at peers
  exact ⟨held_recover_dumpState sane.wellFormed now later place,
    tomb.trans (replayed_tombs sane.wellFormed sane.tidy peers _ rfl place rfl)⟩

theorem visible_filter (record : Option Record) :
    visible now (record.filter fun held => !held.expired now) = visible now record := by
  simp [visible, Option.filter_filter]

/-- A room that the dump does not visit shows nothing when the registry is
complete. -/
theorem visible_dumped (wellFormed : db.WellFormed) (place : Place)
    (complete : place.1 ∉ db.rooms →
      visible now ((db.resident place.1).lookup place.2) = none) :
    visible now (db.dumped place) = visible now (db.held place) := by
  unfold dumped held
  by_cases registered : place.1 ∈ db.rooms
  · rw [if_pos registered]
  · rw [if_neg registered, Option.none_or]
    cases found : (db.resident place.1).lookup place.2 with
    | none => rfl
    | some record =>
        have hidden := complete registered
        rw [found] at hidden
        rw [wellFormed.exclusive _ _ _ found, Option.or_none, hidden]
        rfl

/-- What is replayed from the dump shows the state dumped, wherever there is no
tombstone. -/
theorem visible_replayed (le : now ≤ later) (record : Option Record) :
    visible later ((record.filter fun held => !held.expired now).map Record.normalized) =
      visible later record := by
  rw [visible_normalized]
  exact visible_mono le (visible_filter record)

theorem roundTrips_of_restorable {config : Config} (sane : Sane config db)
    (peers : config.peerCount ≠ 0) (restorable : Restorable db now) :
    RoundTrips db now := by
  intro later le place
  rcases recover_dumpState sane peers now later place with ⟨held, tomb⟩
  rw [held, tomb]
  constructor
  · by_cases shown : visible now (db.held place) = none
    · rw [visible_later le (db.held place), shown]
      by_cases present : (db.findTomb place.1 place.2).isSome = true
      · rw [if_pos present]
        rfl
      · rw [if_neg present]
        rw [visible_replayed le, visible_later le,
          visible_dumped sane.wellFormed place (restorable.registered _ _), shown]
    · rw [restorable.apart place shown, Option.isSome_none, if_neg (by simp),
        visible_replayed le]
      exact visible_mono le
        (visible_dumped sane.wellFormed place (restorable.registered _ _))
  · intro hidden
    cases buried : db.findTomb place.1 place.2 with
    | none => rfl
    | some version =>
        have current := Hlc.normalize_of_le (restorable.hybrid place version hidden buried)
        simp [current]

theorem restorable_of_roundTrips {config : Config} (sane : Sane config db)
    (peers : config.peerCount ≠ 0) (roundTrips : RoundTrips db now) :
    Restorable db now := by
  have restored : ∀ place, visible now (db.held place) =
      if (db.findTomb place.1 place.2).isSome then none
      else visible now (db.dumped place) := by
    intro place
    rw [← (roundTrips now le_rfl place).1, (recover_dumpState sane peers now now place).1]
    by_cases present : (db.findTomb place.1 place.2).isSome = true
    · simp only [if_pos present]
      rfl
    · simp only [if_neg present]
      exact visible_replayed le_rfl _
  refine ⟨?_, ?_, ?_⟩
  · intro place shown
    rw [restored place] at shown
    cases buried : db.findTomb place.1 place.2 with
    | none => rfl
    | some version => simp [buried] at shown
  · intro place version hidden buried
    have same := (roundTrips now le_rfl place).2 hidden
    rw [(recover_dumpState sane peers now now place).2, buried, Option.map_some,
      Option.some.injEq, Version.mk.injEq] at same
    have positive : 0 < version.ts :=
      (Nat.zero_le _).trans_lt (sane.tidy.above place version buried)
    rcases (Hlc.normalize_eq_self_iff version.ts).mp same.1 with zero | current
    · omega
    · exact current
  · intro name key absent
    cases found : (db.resident name).lookup key with
    | none => rfl
    | some record =>
        have missing : db.dumped (name, key) = none := by
          unfold dumped
          rw [if_neg absent, sane.wellFormed.exclusive _ _ _ found]
          rfl
        have heldHere : db.held (name, key) = some record := by
          unfold held
          rw [found]
          rfl
        have shown := restored (name, key)
        rw [missing, heldHere] at shown
        rw [shown]
        by_cases marked : (db.findTomb (name, key).1 (name, key).2).isSome = true
        · rw [if_pos marked]
        · rw [if_neg marked]
          rfl

end Db

open Db

/-- On a node with peers, in every reachable state: the dump replays to the
same content exactly when no record stands beside a tombstone, no tombstone is
in the old format and no room with records is missing from the registry. -/
theorem roundTrips_iff_restorable (config : Config) (peers : config.peerCount ≠ 0) (db : Db)
    (reachable : Reachable config db) (now : Nat) :
    RoundTrips db now ↔ Restorable db now :=
  ⟨restorable_of_roundTrips (sane_of_reachable reachable) peers,
    roundTrips_of_restorable (sane_of_reachable reachable) peers⟩

/-- A node with one peer on which a key is set, deleted and set again, and which
then restarts. -/
def setDeletedSet : List Event :=
  [.command { clientFd := 5, args := [ascii "SET", ascii "k", ascii "a"], now := 1750000000000 },
    .command { clientFd := 5, args := [ascii "DEL", ascii "k"], now := 1750000001000 },
    .command { clientFd := 5, args := [ascii "SET", ascii "k", ascii "b"], now := 1750000002000 },
    .restart 1750000003000]

theorem roundTrips_iff_after_restart :
    RoundTrips ((fresh { peerCount := 1 } 1750000000000).run setDeletedSet) 1750000004000 ↔
      Restorable ((fresh { peerCount := 1 } 1750000000000).run setDeletedSet) 1750000004000 :=
  roundTrips_iff_restorable { peerCount := 1 } (by decide) _ ⟨1750000000000, setDeletedSet, rfl⟩
    1750000004000

/-- Replay leaves the tombstone of the delete beside the second write, and the
dump of that state loses the key. -/
theorem not_roundTrips_after_restart :
    Reachable { peerCount := 1 } ((fresh { peerCount := 1 } 1750000000000).run setDeletedSet) ∧
      ¬ RoundTrips ((fresh { peerCount := 1 } 1750000000000).run setDeletedSet)
        1750000004000 := by
  refine ⟨⟨1750000000000, setDeletedSet, rfl⟩, ?_⟩
  intro roundTrips
  have lost := (roundTrips 1750000004000 le_rfl (ascii "default", ascii "k")).1
  revert lost
  decide +kernel

end SomniumDB
