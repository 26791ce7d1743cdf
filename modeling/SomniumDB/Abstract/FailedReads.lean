import SomniumDB.Core.ColdReads

/-! # Reads of cold storage that fail

A lookup whose read fails changes nothing. A command that looks one key up does what it
does when every read succeeds, unless the read of that key fails. -/

namespace SomniumDB

open Bytes FsUtil

theorem Db.lookup_ram {db : Db} {now : Nat} {name key : Bytes} {record : Record}
    (found : (db.lookup now name key).2 = some record) :
    ((db.lookup now name key).1.keysOf name).lookup key = some record := by
  unfold Db.lookup at found ⊢
  cases ram : (db.keysOf name).lookup key with
  | some held =>
      rw [ram] at found
      dsimp only at found ⊢
      by_cases past : held.expired now = true
      · rw [if_pos past] at found
        cases found
      · rw [if_neg past] at found ⊢
        rw [ram]
        exact found
  | none =>
      rw [ram] at found
      cases cold : db.cold.find name key with
      | none =>
          rw [cold] at found
          cases found
      | some held =>
          rw [cold] at found
          dsimp only at found ⊢
          by_cases past : held.expired now = true
          · rw [if_pos past] at found
            cases found
          · rw [if_neg past] at found ⊢
            rw [← Option.some.inj found]
            simp [Db.keysOf, Db.room, Db.putKeys]

/-- The handlers as those of a database whose reads may fail. -/
theorem Keyspace.ofFaulty :
    (∀ state : Faulty, Keyspace.db state = state.db) ∧
    (∀ (state : Faulty) (db : Db), Keyspace.withDb state db = { state with db }) ∧
    (∀ (state : Faulty) now name key,
      Keyspace.lookup state now name key = state.lookup now name key) :=
  ⟨fun _ => rfl, fun _ _ => rfl, fun _ _ _ _ => rfl⟩

namespace Faulty

variable {state : Faulty} {db : Db} {now : Nat} {name : Bytes} {resp3 : Bool}

/-- The next lookup of the key is a read that fails. -/
def Blind (state : Faulty) (name key : Bytes) : Prop :=
  state.Cold name key ∧ state.reads.head? = some false

theorem lookup_of_blind {key : Bytes} (blind : state.Blind name key) :
    state.lookup now name key = ({ state with reads := state.reads.tail }, none) := by
  rcases blind with ⟨cold, failed⟩
  unfold lookup
  dsimp only
  rw [if_pos cold, List.headD_eq_head?_getD, failed]
  rfl

theorem lookup_of_clear {key : Bytes} (clear : ¬ state.Blind name key) :
    ∃ reads, state.lookup now name key =
      (⟨(state.db.lookup now name key).1, reads⟩, (state.db.lookup now name key).2) := by
  unfold lookup
  dsimp only
  by_cases cold : state.Cold name key
  · have succeeds : state.reads.headD true = true := by
      rw [List.headD_eq_head?_getD]
      cases first : state.reads.head? with
      | none => rfl
      | some outcome =>
          cases outcome with
          | true => rfl
          | false => exact absurd ⟨cold, first⟩ clear
    rw [if_pos cold, if_pos succeeds]
    exact ⟨_, rfl⟩
  · rw [if_neg cold]
    exact ⟨_, rfl⟩

theorem not_blind_of_ram {key : Bytes} {record : Record}
    (present : (state.db.keysOf name).lookup key = some record) :
    ¬ state.Blind name key := by
  intro blind
  rw [blind.1.1] at present
  cases present

theorem not_blind_nil (key : Bytes) : ¬ Blind ⟨db, []⟩ name key := by
  intro blind
  cases blind.2

theorem lookup_reliable (now : Nat) (name key : Bytes) :
    lookup ⟨db, []⟩ now name key =
      (⟨(db.lookup now name key).1, []⟩, (db.lookup now name key).2) := by
  unfold lookup
  dsimp only
  by_cases cold : Cold ⟨db, []⟩ name key
  · rw [if_pos cold]
    rfl
  · rw [if_neg cold]

theorem overwritten_reliable (greatest : Nat) (pairs : List (Bytes × Bytes)) :
    Keyspace.overwritten (⟨db, []⟩ : Faulty) now name greatest pairs =
      (⟨(db.overwritten now name greatest pairs).1, []⟩,
        (db.overwritten now name greatest pairs).2) := by
  induction pairs generalizing db greatest with
  | nil => rfl
  | cons pair rest induction =>
      unfold Db.overwritten Keyspace.overwritten
      simp only [Keyspace.ofFaulty, Keyspace.ofDb]
      rw [lookup_reliable]
      exact induction _

/-! ## Commands on one key -/

/-- A handler does to the records what the one without faults does. -/
structure Agrees (outcome : Faulty × Bytes) (plain : Db × Bytes) : Prop where
  db : outcome.1.db = plain.1
  reply : outcome.2 = plain.2

theorem agrees_handleSet {args : List Bytes}
    (clear : ¬ state.Blind name (args[1]?.getD [])) :
    Agrees (Keyspace.handleSet state now resp3 name args)
      (state.db.handleSet now resp3 name args) := by
  rcases args with _ | ⟨first, _ | ⟨key, _ | ⟨value, options⟩⟩⟩
  · exact ⟨rfl, rfl⟩
  · exact ⟨rfl, rfl⟩
  · exact ⟨rfl, rfl⟩
  · have clearHere : ¬ state.Blind name key := clear
    rcases @lookup_of_clear state now name key clearHere with ⟨reads, looked⟩
    unfold Db.handleSet Keyspace.handleSet
    simp only [Keyspace.ofFaulty, Keyspace.ofDb, looked]
    cases Db.setOptions now {} options with
    | error err => exact ⟨rfl, rfl⟩
    | ok options =>
        dsimp only
        split_ifs <;> exact ⟨rfl, rfl⟩

theorem agrees_handleDel {first key : Bytes} (clear : ¬ state.Blind name key) :
    Agrees (Keyspace.handleDel state now name [first, key])
      (state.db.handleDel now name [first, key]) := by
  rcases @lookup_of_clear state now name key clear with ⟨reads, looked⟩
  unfold Db.handleDel Keyspace.handleDel Keyspace.delLoop Keyspace.delLoop
  simp only [Keyspace.ofFaulty, Keyspace.ofDb, looked]
  generalize state.db.lookup now name key = outcome
  rcases outcome with ⟨found, record⟩
  cases record <;> exact ⟨rfl, rfl⟩

theorem agrees_handleExpire {args : List Bytes} (scale : Int)
    (clear : ¬ state.Blind name (args[1]?.getD [])) :
    Agrees (Keyspace.handleExpire state now name args scale)
      (state.db.handleExpire now name args scale) := by
  rcases @lookup_of_clear state now name (args[1]?.getD []) clear with ⟨reads, looked⟩
  have inRam : ∀ record, (state.db.lookup now name (args[1]?.getD [])).2 = some record →
      ((state.db.lookup now name (args[1]?.getD [])).1.keysOf name).lookup
        (args[1]?.getD []) = some record := fun record => Db.lookup_ram
  unfold Db.handleExpire Keyspace.handleExpire
  simp only [Keyspace.ofFaulty, Keyspace.ofDb, looked]
  generalize state.db.lookup now name (args[1]?.getD []) = outcome at inRam
  rcases outcome with ⟨found, record⟩
  by_cases shape : (if scale ≠ 0 then args.length < 3 else args.length ≠ 2)
  · rw [if_pos shape, if_pos shape]
    exact ⟨rfl, rfl⟩
  · rw [if_neg shape, if_neg shape]
    cases Db.expireOptions {} (args.drop 3) with
    | error err => exact ⟨rfl, rfl⟩
    | ok options =>
        dsimp only
        split_ifs
        · exact ⟨rfl, rfl⟩
        · exact ⟨rfl, rfl⟩
        · cases Db.expireDeadline now scale args with
          | error err => exact ⟨rfl, rfl⟩
          | ok deadline =>
              cases record with
              | none => exact ⟨rfl, rfl⟩
              | some record =>
                  dsimp only
                  split_ifs
                  · exact ⟨rfl, rfl⟩
                  · have there : ¬ Blind ⟨found, reads⟩ name (args[1]?.getD []) :=
                      not_blind_of_ram (inRam record rfl)
                    exact agrees_handleDel there
                  · exact ⟨rfl, rfl⟩

theorem agrees_deleteFrom {key : Bytes} (args : List Bytes) (version : Version)
    (clear : ¬ state.Blind name key) :
    Agrees (Keyspace.deleteFrom state now name key args version)
      (state.db.deleteFrom now name key args version) := by
  rcases @lookup_of_clear state now name key clear with ⟨reads, looked⟩
  unfold Db.deleteFrom Keyspace.deleteFrom
  simp only [Keyspace.ofFaulty, Keyspace.ofDb, looked]
  split_ifs <;> exact ⟨rfl, rfl⟩

theorem agrees_mergeInto {key value : Bytes} (args : List Bytes) (expireAt : Option Int)
    (version : Version) (clear : ¬ state.Blind name key) :
    Agrees (Keyspace.mergeInto state now name key value args expireAt version)
      (state.db.mergeInto now name key value args expireAt version) := by
  rcases @lookup_of_clear state now name key clear with ⟨reads, looked⟩
  unfold Db.mergeInto Keyspace.mergeInto
  simp only [Keyspace.ofFaulty, Keyspace.ofDb, looked]
  split_ifs <;> exact ⟨rfl, rfl⟩

theorem incomingVersion_clock {tsArg nodeArg : Bytes} {observed : Db} {version : Version}
    (admitted : db.incomingVersion now tsArg nodeArg = .ok (observed, version)) :
    ∃ clock, observed = { db with clock } := by
  unfold Db.incomingVersion at admitted
  cases parsedTs : parseU64 tsArg with
  | none =>
      rw [parsedTs] at admitted
      cases admitted
  | some ts =>
      cases parsedNode : parseU64 nodeArg with
      | none =>
          rw [parsedTs, parsedNode] at admitted
          cases admitted
      | some node =>
          rw [parsedTs, parsedNode] at admitted
          dsimp only at admitted
          by_cases large : uint32Max < node
          · rw [if_pos large] at admitted
            cases admitted
          · rw [if_neg large] at admitted
            by_cases far : (now : Int) + db.config.maxClockOffsetMs <
                (Hlc.physicalMs (Hlc.normalize ts) : Int)
            · rw [if_pos far] at admitted
              cases admitted
            · rw [if_neg far] at admitted
              cases admitted
              exact ⟨_, rfl⟩

/-- The clock does not say where a key is. -/
theorem not_blind_observed {key tsArg nodeArg : Bytes} {observed : Db} {version : Version}
    (clear : ¬ state.Blind name key)
    (admitted : state.db.incomingVersion now tsArg nodeArg = .ok (observed, version)) :
    ¬ Blind { state with db := observed } name key := by
  rcases incomingVersion_clock admitted with ⟨clock, rfl⟩
  exact clear

theorem agrees_handleCrdtdel {args : List Bytes}
    (clear : ¬ state.Blind name (args[1]?.getD [])) :
    Agrees (Keyspace.handleCrdtdel state now name args)
      (state.db.handleCrdtdel now name args) := by
  rcases args with _ | ⟨first, _ | ⟨key, _ | ⟨tsArg, _ | ⟨nodeArg, _ | ⟨more, rest⟩⟩⟩⟩⟩
  · exact ⟨rfl, rfl⟩
  · exact ⟨rfl, rfl⟩
  · exact ⟨rfl, rfl⟩
  · exact ⟨rfl, rfl⟩
  · unfold Db.handleCrdtdel Keyspace.handleCrdtdel
    simp only [Keyspace.ofFaulty, Keyspace.ofDb]
    cases admitted : state.db.incomingVersion now tsArg nodeArg with
    | error err => exact ⟨rfl, rfl⟩
    | ok outcome => exact agrees_deleteFrom _ _ (not_blind_observed clear admitted)
  · exact ⟨rfl, rfl⟩

theorem agrees_handleCrdtmerge {args : List Bytes}
    (clear : ¬ state.Blind name (args[1]?.getD [])) :
    Agrees (Keyspace.handleCrdtmerge state now name args)
      (state.db.handleCrdtmerge now name args) := by
  rcases args with _ | ⟨first, _ | ⟨key, _ | ⟨value, _ | ⟨tsArg, _ | ⟨nodeArg, _ | ⟨expireArg,
    _ | ⟨more, rest⟩⟩⟩⟩⟩⟩⟩
  · exact ⟨rfl, rfl⟩
  · exact ⟨rfl, rfl⟩
  · exact ⟨rfl, rfl⟩
  · exact ⟨rfl, rfl⟩
  · exact ⟨rfl, rfl⟩
  · unfold Db.handleCrdtmerge Keyspace.handleCrdtmerge
    simp only [Keyspace.ofFaulty, Keyspace.ofDb]
    cases admitted : state.db.incomingVersion now tsArg nodeArg with
    | error err => exact ⟨rfl, rfl⟩
    | ok outcome => exact agrees_mergeInto _ _ _ (not_blind_observed clear admitted)
  · unfold Db.handleCrdtmerge Keyspace.handleCrdtmerge
    simp only [Keyspace.ofFaulty, Keyspace.ofDb]
    cases parseI64 expireArg with
    | none => exact ⟨rfl, rfl⟩
    | some expireAt =>
        dsimp only
        by_cases negative : expireAt < 0
        · rw [if_pos negative, if_pos negative]
          exact ⟨rfl, rfl⟩
        · rw [if_neg negative, if_neg negative]
          cases admitted : state.db.incomingVersion now tsArg nodeArg with
          | error err => exact ⟨rfl, rfl⟩
          | ok outcome => exact agrees_mergeInto _ _ _ (not_blind_observed clear admitted)
  · exact ⟨rfl, rfl⟩

end Faulty

end SomniumDB
