import SomniumDB.Abstract.Events
import SomniumDB.Abstract.FailedReads
import SomniumDB.Abstract.History

/-! # What commands do when cold storage fails

A lookup whose read fails changes nothing, so every command still keeps each
record in one medium, as long as it does not write the key it failed to read. -/

namespace SomniumDB

open Bytes FsUtil

/-- Some record of the list writes to the place. -/
def Puts (records : List AofRecord) (place : Place) : Prop :=
  ∃ record ∈ records, ∃ held, .put place held ∈ record.changes

theorem not_puts_nil (place : Place) : ¬ Puts [] place := by
  rintro ⟨record, member, _⟩
  cases member

theorem puts_append {front back : List AofRecord} {place : Place} :
    Puts (front ++ back) place ↔ Puts front place ∨ Puts back place := by
  constructor
  · rintro ⟨record, member, held, put⟩
    rcases List.mem_append.mp member with first | later
    · exact .inl ⟨record, first, held, put⟩
    · exact .inr ⟨record, later, held, put⟩
  · rintro (⟨record, member, held, put⟩ | ⟨record, member, held, put⟩)
    · exact ⟨record, List.mem_append_left _ member, held, put⟩
    · exact ⟨record, List.mem_append_right _ member, held, put⟩

namespace Node

/-- What `after` holds was held by `node` under the same deadline, or is put
there by the records `new`. -/
structure Retains (node after : Node) (new : List AofRecord) : Prop where
  log : after.log = node.log ++ new
  held : ∀ place held, after.held place = some held →
    (∃ before, node.held place = some before ∧ held.expireAt = before.expireAt) ∨
      Puts new place

variable {config : Config} {now : Nat} {node second after : Node}

theorem Retains.of_same {node after : Node} (log : after.log = node.log)
    (held : after.held = node.held) : Retains node after [] :=
  ⟨log.trans (List.append_nil _).symm, fun _ record found =>
    .inl ⟨record, held ▸ found, rfl⟩⟩

theorem Retains.trans {front back : List AofRecord} (left : Retains node second front)
    (right : Retains second after back) : Retains node after (front ++ back) := by
  refine ⟨by rw [right.log, left.log, List.append_assoc], ?_⟩
  intro place held found
  rcases right.held place held found with ⟨middle, here, deadline⟩ | put
  · rcases left.held place middle here with ⟨before, there, earlier⟩ | put
    · exact .inl ⟨before, there, deadline.trans earlier⟩
    · exact .inr (puts_append.mpr (.inl put))
  · exact .inr (puts_append.mpr (.inr put))

theorem retains_step (step : Step config now node after) :
    ∃ new, Retains node after new := by
  rcases step_source step with ⟨new, grown, source⟩
  refine ⟨new, grown, ?_⟩
  intro place held found
  rcases source place held found with ⟨before, here, rfl | rfl⟩ | ⟨record, member, put⟩
  · exact .inl ⟨held, here, rfl⟩
  · exact .inl ⟨before, here, rfl⟩
  · exact .inr ⟨record, member, held, put⟩

theorem retains_steps (steps : Steps config now node after) :
    ∃ new, Retains node after new := by
  induction steps with
  | refl => exact ⟨[], Retains.of_same rfl rfl⟩
  | tail _ step induction =>
      rcases induction with ⟨front, left⟩
      rcases retains_step step with ⟨back, right⟩
      exact ⟨front ++ back, left.trans right⟩

end Node

namespace Db

/-- What a command in an awake room keeps, whatever its reads do. -/
structure Tends (db after : Db) : Prop where
  wellFormed : after.WellFormed
  frame : Frame db after
  tidy : db.node.Tidy → after.node.Tidy
  retains : ∃ new, Node.Retains db.node after.node new

variable {db second after : Db} {now : Nat} {name : Bytes}

theorem Tends.refl (wellFormed : db.WellFormed) : Tends db db :=
  ⟨wellFormed, Frame.refl db, id, [], Node.Retains.of_same rfl rfl⟩

theorem Tends.trans (left : Tends db second) (right : Tends second after) :
    Tends db after := by
  rcases left.retains with ⟨front, first⟩
  rcases right.retains with ⟨back, later⟩
  exact ⟨right.wellFormed, left.frame.trans right.frame, fun tidy => right.tidy (left.tidy tidy),
    front ++ back, first.trans later⟩

theorem Serves.tends (served : Serves Node.Step now db after) : Tends db after :=
  ⟨served.wellFormed, served.frame, Node.tidy_steps served.steps,
    Node.retains_steps served.steps⟩

theorem Serves.tends_local (served : Serves Node.Local now db after) : Tends db after :=
  served.of_local.tends

end Db

namespace Faulty

open Db

variable {state : Faulty} {now : Nat} {name : Bytes} {resp3 : Bool}

/-! ## Reading -/

/-- A lookup finds the key as without faults, or it fails and changes nothing. -/
theorem lookup_cases (wellFormed : state.db.WellFormed) (awake : state.db.Awake name)
    (now : Nat) (key : Bytes) :
    Read now state.db (state.lookup now name key).1.db name key
        (state.lookup now name key).2 ∨
      state.Blind name key ∧ (state.lookup now name key).1.db = state.db ∧
        (state.lookup now name key).2 = none := by
  by_cases blind : state.Blind name key
  · rw [lookup_of_blind blind]
    exact .inr ⟨blind, rfl, rfl⟩
  · obtain ⟨reads, looked⟩ : ∃ reads, state.lookup now name key = _ := lookup_of_clear blind
    rw [looked]
    exact .inl (read_lookup wellFormed awake now key)

theorem tends_lookup (wellFormed : state.db.WellFormed) (awake : state.db.Awake name)
    (now : Nat) (key : Bytes) : Tends state.db (state.lookup now name key).1.db := by
  rcases lookup_cases wellFormed awake now key with read | ⟨_, same, _⟩
  · exact read.served.tends_local
  · rw [same]
    exact Tends.refl wellFormed

/-- A lookup logs nothing. -/
theorem aof_lookup (wellFormed : state.db.WellFormed) (awake : state.db.Awake name)
    (now : Nat) (key : Bytes) : (state.lookup now name key).1.db.aof = state.db.aof := by
  by_cases blind : state.Blind name key
  · rw [lookup_of_blind blind]
  · obtain ⟨reads, looked⟩ : ∃ reads, state.lookup now name key = _ := lookup_of_clear blind
    rw [looked]
    exact congrArg Node.log (lookup_spec wellFormed awake now key).1.node

theorem tends_mgetLoop (wellFormed : state.db.WellFormed) (awake : state.db.Awake name)
    (out : Bytes) (keys : List Bytes) :
    Tends state.db (Keyspace.mgetLoop state now resp3 name out keys).1.db := by
  induction keys generalizing state out with
  | nil => exact Tends.refl wellFormed
  | cons key rest induction =>
      have looked := tends_lookup wellFormed awake now key
      unfold Keyspace.mgetLoop
      simp only [Keyspace.ofFaulty]
      rcases equal : state.lookup now name key with ⟨found, _ | record⟩
      · rw [equal] at looked
        exact looked.trans (induction looked.wellFormed (looked.frame.awake awake) _)
      · dsimp only
        rw [equal] at looked
        by_cases long : maxReply < out.length + record.value.length
        · rw [if_pos long]
          exact looked
        · rw [if_neg long]
          exact looked.trans (induction looked.wellFormed (looked.frame.awake awake) _)

theorem tends_existsLoop (wellFormed : state.db.WellFormed) (awake : state.db.Awake name)
    (count : Nat) (keys : List Bytes) :
    Tends state.db (Keyspace.existsLoop state now name count keys).1.db := by
  induction keys generalizing state count with
  | nil => exact Tends.refl wellFormed
  | cons key rest induction =>
      have looked := tends_lookup wellFormed awake now key
      exact looked.trans (induction looked.wellFormed (looked.frame.awake awake) _)

/-! ## Deleting -/

/-- The loop of `DEL` logs deletes only, and what it deletes is nowhere. -/
structure Deletes (db after : Db) (name : Bytes) : Prop where
  tends : Tends db after
  log : ∃ new, after.aof = db.aof ++ new ∧ ∀ record ∈ new, record.room = name ∧
    ∃ key, record.args = [ascii "DEL", key] ∧ after.held (name, key) = none

theorem not_puts_deletes {records : List AofRecord}
    (deletes : ∀ record ∈ records, ∃ key, record.args = [ascii "DEL", key]) (place : Place) :
    ¬ Puts records place := by
  rintro ⟨record, member, held, put⟩
  rcases deletes record member with ⟨key, args⟩
  rw [changes_del args] at put
  cases List.mem_singleton.mp put

/-- One key that was found is erased, marked and logged. -/
theorem deletes_one {db after : Db} {key : Bytes} {record : Record}
    (read : Read now db after name key (some record)) (quiet : after.aof = db.aof)
    {erased : Db} (equal : erased =
      (({ after with
          clock := Hlc.next after.clock now record.timestampMs }.erase name key).setTomb
        name key ⟨Hlc.next after.clock now record.timestampMs, db.config.nodeId⟩).append
        { room := name, args := [ascii "DEL", key]
          timestampMs := Hlc.next after.clock now record.timestampMs
          nodeId := db.config.nodeId }) : Deletes db erased name := by
  have tends := (serves_delete read).tends_local
  rw [← equal] at tends
  have acts := acts_delete read.served.wellFormed read.awake read.found.cold
    (Hlc.next after.clock now record.timestampMs)
    ⟨Hlc.next after.clock now record.timestampMs, db.config.nodeId⟩
  have gone : erased.held (name, key) = none := by
    rw [equal]
    refine (congrFun (congrArg Node.held acts.node) (name, key)).trans ?_
    rw [Node.apply_held]
    exact if_pos rfl
  have logged : erased.aof = after.aof ++
      [{ room := name, args := [ascii "DEL", key]
         timestampMs := Hlc.next after.clock now record.timestampMs
         nodeId := db.config.nodeId }] := by
    rw [equal]
    exact congrArg (· ++ [_]) (congrArg Node.log acts.node)
  refine ⟨tends, _, by rw [logged, quiet], ?_⟩
  intro other member
  rw [List.mem_singleton.mp member]
  exact ⟨rfl, key, rfl, gone⟩

theorem Deletes.trans {db second after : Db} (left : Deletes db second name)
    (right : Deletes second after name) : Deletes db after name := by
  rcases left.log with ⟨front, grownFront, eachFront⟩
  rcases right.log with ⟨back, grownBack, eachBack⟩
  refine ⟨left.tends.trans right.tends, front ++ back,
    by rw [grownBack, grownFront, List.append_assoc], ?_⟩
  intro record member
  rcases List.mem_append.mp member with first | later
  · rcases eachFront record first with ⟨room, key, args, gone⟩
    refine ⟨room, key, args, ?_⟩
    rcases right.tends.retains with ⟨new, retains⟩
    have same : new = back := List.append_cancel_left (retains.log.symm.trans grownBack)
    by_contra present
    rcases Option.ne_none_iff_exists'.mp present with ⟨held, found⟩
    rcases retains.held (name, key) held found with ⟨before, here, _⟩ | put
    · exact absurd (gone.symm.trans here) (by simp)
    · rw [same] at put
      exact not_puts_deletes (fun other within =>
        (eachBack other within).2.imp fun _ facts => facts.1) _ put
  · exact eachBack record later

theorem Deletes.of_tends {db after : Db} (tends : Tends db after)
    (quiet : after.aof = db.aof) : Deletes db after name :=
  ⟨tends, [], by rw [quiet, List.append_nil], by simp⟩

theorem deletes_delLoop (wellFormed : state.db.WellFormed) (awake : state.db.Awake name)
    (count : Nat) (keys : List Bytes) :
    Deletes state.db (Keyspace.delLoop state now name count keys).1.db name := by
  induction keys generalizing state count with
  | nil => exact Deletes.of_tends (Tends.refl wellFormed) rfl
  | cons key rest induction =>
      have looked := lookup_cases wellFormed awake now key
      have tends := tends_lookup wellFormed awake now key
      have quiet := aof_lookup wellFormed awake now key
      unfold Keyspace.delLoop
      simp only [Keyspace.ofFaulty]
      rcases equal : state.lookup now name key with ⟨found, _ | record⟩
      · rw [equal] at tends quiet
        exact (Deletes.of_tends tends quiet).trans
          (induction tends.wellFormed (tends.frame.awake awake) _)
      · rw [equal] at looked quiet
        rcases looked with read | ⟨_, _, absent⟩
        · have deleted := deletes_one read quiet rfl
          exact deleted.trans (@induction ⟨_, found.reads⟩ deleted.tends.wellFormed
            (deleted.tends.frame.awake awake) _)
        · cases absent

theorem deletes_handleDel (wellFormed : state.db.WellFormed) (awake : state.db.Awake name)
    (args : List Bytes) : Deletes state.db (Keyspace.handleDel state now name args).1.db name := by
  unfold Keyspace.handleDel
  match args with
  | _ :: _ :: _ => exact deletes_delLoop wellFormed awake _ _
  | [] | [_] => exact Deletes.of_tends (Tends.refl wellFormed) rfl

/-! ## Writing -/

/-- Writes to some places that are not in the log yet. -/
structure Drafts (db after : Db) (places : List Place) : Prop where
  wellFormed : after.WellFormed
  frame : Frame db after
  tidy : db.node.Tidy → after.node.Tidy
  log : after.aof = db.aof
  held : ∀ place held, after.held place = some held →
    (∃ before, db.held place = some before ∧ held.expireAt = before.expireAt) ∨
      place ∈ places

theorem Drafts.trans {db second after : Db} {front back : List Place}
    (left : Drafts db second front) (right : Drafts second after back) :
    Drafts db after (front ++ back) := by
  refine ⟨right.wellFormed, left.frame.trans right.frame,
    fun tidy => right.tidy (left.tidy tidy), right.log.trans left.log, ?_⟩
  intro place held found
  rcases right.held place held found with ⟨middle, here, deadline⟩ | listed
  · rcases left.held place middle here with ⟨before, there, earlier⟩ | listed
    · exact .inl ⟨before, there, deadline.trans earlier⟩
    · exact .inr (List.mem_append_left _ listed)
  · exact .inr (List.mem_append_right _ listed)

/-- What logs nothing writes to no place. -/
theorem Drafts.of_tends {db after : Db} (tends : Tends db after) (quiet : after.aof = db.aof) :
    Drafts db after [] := by
  rcases tends.retains with ⟨new, retains⟩
  have none : new = [] := by
    have grown : db.aof ++ [] = db.aof ++ new := by
      rw [List.append_nil]
      exact quiet.symm.trans retains.log
    exact (List.append_cancel_left grown).symm
  refine ⟨tends.wellFormed, tends.frame, tends.tidy, quiet, ?_⟩
  intro place held found
  rcases retains.held place held found with kept | put
  · exact .inl kept
  · rw [none] at put
    exact absurd put (not_puts_nil place)

/-- A key that was just read is written. -/
theorem drafts_store {db after : Db} {key : Bytes} {record : Option Record}
    (read : Read now db after name key record) (new : Record) :
    Drafts after ((after.recordFor name key record).1.assign name key
      (after.recordFor name key record).2 new) [(name, key)] := by
  have acts := acts_store read.served.wellFormed read.awake read.found read.held new
  refine ⟨acts.wellFormed, acts.frame, ?_, ?_, ?_⟩
  · intro tidy
    rw [acts.node]
    refine ⟨?_, ?_⟩
    · rw [Node.apply_log]
      exact tidy.sound
    · rw [Node.apply_watermark]
      exact Node.apply_above _ _ tidy.above
  · refine (congrArg Node.log acts.node).trans ?_
    rw [Node.apply_log]
    rfl
  · intro place held found
    have here := (congrFun (congrArg Node.held acts.node) place).symm.trans found
    rw [Node.apply_held] at here
    by_cases same : place = (Change.put (name, key) new).place
    · rw [if_pos same] at here
      exact .inr (List.mem_singleton.mpr same)
    · rw [if_neg same] at here
      exact .inl ⟨held, here, rfl⟩

/-- The writes of a record, then the record in the log. -/
theorem Drafts.commit {db mid : Db} {places : List Place} (drafts : Drafts db mid places)
    {record : AofRecord} (sound : record.Sound)
    (puts : ∀ place ∈ places, Puts [record] place) : Tends db (mid.append record) := by
  have appended := acts_append drafts.wellFormed record
  refine ⟨appended.wellFormed, drafts.frame.trans appended.frame, ?_, [record], ?_, ?_⟩
  · intro tidy
    have kept := drafts.tidy tidy
    refine ⟨?_, kept.above⟩
    intro other member
    rcases List.mem_append.mp member with earlier | new
    · exact kept.sound other earlier
    · rw [List.mem_singleton.mp new]
      exact sound
  · exact congrArg (· ++ [record]) drafts.log
  · intro place held found
    exact (drafts.held place held found).imp id (puts place)

/-- Every read of the second loop of `MSET` succeeds. -/
def PairsRead (now : Nat) (name : Bytes) (version : Nat) :
    Faulty → List (Bytes × Bytes) → Prop
  | _, [] => True
  | state, (key, value) :: rest =>
      ¬ state.Blind name key ∧
        PairsRead now name version
          { (state.lookup now name key).1 with
            db := (state.lookup now name key).1.db.writeKey name key value 0 version
              (state.lookup now name key).2 } rest

theorem drafts_writePairs (wellFormed : state.db.WellFormed) (awake : state.db.Awake name)
    (version : Nat) (pairs : List (Bytes × Bytes))
    (clear : PairsRead now name version state pairs) :
    Drafts state.db (Keyspace.writePairs state now name version pairs).db
      (pairs.map fun pair => (name, pair.1)) := by
  induction pairs generalizing state with
  | nil => exact Drafts.of_tends (Tends.refl wellFormed) rfl
  | cons pair rest induction =>
      rcases pair with ⟨key, value⟩
      rcases clear with ⟨here, later⟩
      have looked := lookup_cases wellFormed awake now key
      rcases looked with read | ⟨blind, _⟩
      · have quiet := aof_lookup wellFormed awake now key
        have found := Drafts.of_tends read.served.tends_local quiet
        have stored := found.trans (drafts_store read
          { value, expireAt := 0, timestampMs := version
            nodeId := (state.lookup now name key).1.db.config.nodeId })
        exact stored.trans
          (induction stored.wellFormed (stored.frame.awake awake) later)
      · exact absurd blind here

theorem drafts_overwritten (wellFormed : state.db.WellFormed) (awake : state.db.Awake name)
    (greatest : Nat) (pairs : List (Bytes × Bytes)) :
    Drafts state.db (Keyspace.overwritten state now name greatest pairs).1.db [] := by
  induction pairs generalizing state greatest with
  | nil => exact Drafts.of_tends (Tends.refl wellFormed) rfl
  | cons pair rest induction =>
      have looked := Drafts.of_tends (tends_lookup wellFormed awake now pair.1)
        (aof_lookup wellFormed awake now pair.1)
      exact looked.trans (induction looked.wellFormed (looked.frame.awake awake) _)

theorem drafts_clock {db : Db} (wellFormed : db.WellFormed) (clock : Nat) :
    Drafts db { db with clock } [] :=
  ⟨wellFormed.withClock clock, frame_clock clock, fun tidy => ⟨tidy.sound, tidy.above⟩, rfl,
    fun _ held found => .inl ⟨held, found, rfl⟩⟩

/-- The second loop of an `MSET` reads every key it writes. -/
def MsetCareful (state : Faulty) (now : Nat) (name : Bytes) (args : List Bytes) : Prop :=
  let (found, greatest) := Keyspace.overwritten state now name 0 (pairsOf args.tail)
  let version := Hlc.next found.db.clock now greatest
  PairsRead now name version { found with db := { found.db with clock := version } }
    (pairsOf args.tail)

theorem tends_handleMset (wellFormed : state.db.WellFormed) (awake : state.db.Awake name)
    {args : List Bytes} {first : Bytes} (head : args.head? = some first)
    (command : upper first = ascii "MSET") (careful : state.MsetCareful now name args) :
    Tends state.db (Keyspace.handleMset state now name args).1.db := by
  obtain ⟨rest, rfl⟩ : ∃ rest, args = first :: rest := List.head?_eq_some_iff.mp head
  unfold MsetCareful at careful
  unfold Keyspace.handleMset
  simp only [Keyspace.ofFaulty]
  by_cases malformed : (first :: rest).length < 3 ∨ (first :: rest).length % 2 = 0
  · rw [if_pos malformed]
    exact Tends.refl wellFormed
  · rw [if_neg malformed]
    dsimp only [List.tail_cons] at careful ⊢
    have read : Drafts state.db (Keyspace.overwritten state now name 0 (pairsOf rest)).1.db [] :=
      drafts_overwritten wellFormed awake 0 (pairsOf rest)
    generalize Keyspace.overwritten state now name 0 (pairsOf rest) = looped at read careful
    rcases looped with ⟨found, greatest⟩
    dsimp only at read careful ⊢
    generalize Hlc.next found.db.clock now greatest = version at careful
    have clocked := drafts_clock read.wellFormed version
    have written := (read.trans clocked).trans (@drafts_writePairs ⟨_, found.reads⟩ now name
      clocked.wellFormed (clocked.frame.awake (read.frame.awake awake)) version (pairsOf rest)
      careful)
    refine written.commit ?_ ?_
    · simp [AofRecord.Sound, command]
    · intro place listed
      refine ⟨_, List.mem_singleton_self _, ?_⟩
      rw [changes_mset rfl command rfl]
      rcases List.mem_map.mp listed with ⟨pair, member, rfl⟩
      exact ⟨_, List.mem_map.mpr ⟨pair, member, rfl⟩⟩

/-- A `SET` whose read fails writes nothing: it is refused, or has `XX`. -/
def SetCareful (state : Faulty) (now : Nat) (name : Bytes) (args : List Bytes) : Prop :=
  ∀ first key value options parsed, args = first :: key :: value :: options →
    setOptions now {} options = .ok parsed → state.Blind name key → parsed.xx = true

theorem tends_handleSet (wellFormed : state.db.WellFormed) (awake : state.db.Awake name)
    {args : List Bytes} {first : Bytes} (head : args.head? = some first)
    (command : upper first = ascii "SET") (careful : state.SetCareful now name args) :
    Tends state.db (Keyspace.handleSet state now resp3 name args).1.db := by
  by_cases blind : state.Blind name (args[1]?.getD [])
  · unfold Keyspace.handleSet
    simp only [Keyspace.ofFaulty]
    match args with
    | _ :: key :: value :: options =>
        dsimp only
        cases accepted : setOptions now {} options with
        | error _ => exact Tends.refl wellFormed
        | ok parsed =>
            have only := careful _ key value options parsed rfl accepted blind
            have failed : state.lookup now name key =
                ({ state with reads := state.reads.tail }, none) := lookup_of_blind blind
            rw [failed]
            simp only [only, Option.isSome_none, Bool.and_false, Option.isNone_none, Bool.and_true,
              Bool.or_true, if_true]
            exact Tends.refl wellFormed
    | [] | [_] | [_, _] => exact Tends.refl wellFormed
  · rw [(agrees_handleSet blind).db]
    exact (serves_handleSet wellFormed awake resp3 head command).tends_local

/-! ## Replicated commands -/

/-- A replicated delete whose read fails still leaves its tombstone. -/
theorem tends_mark {db : Db} (wellFormed : db.WellFormed) {record : AofRecord}
    (sound : record.Sound) (key : Bytes) (version : Version) :
    Tends db ((db.setTomb name key version).append record) := by
  have marked := acts_setTomb wellFormed name key version
  have drafts : Drafts db (db.setTomb name key version) [] := by
    refine ⟨marked.wellFormed, marked.frame, ?_, congrArg Node.log marked.node, ?_⟩
    · intro tidy
      rw [marked.node]
      refine ⟨tidy.sound, ?_⟩
      intro place tomb here
      rw [Node.mark, Node.bury_tomb] at here
      by_cases same : place = (name, key)
      · rw [if_pos same] at here
        exact Node.marked_above (tidy.above _) here
      · rw [if_neg same] at here
        exact tidy.above place tomb here
    · intro place held found
      exact .inl ⟨held, (congrFun (congrArg Node.held marked.node) place).symm.trans found, rfl⟩
  exact drafts.commit sound (by simp)

theorem tends_handleCrdtdel (wellFormed : state.db.WellFormed) (awake : state.db.Awake name)
    {args : List Bytes} {first : Bytes} (head : args.head? = some first)
    (command : upper first = ascii "CRDTDEL") :
    Tends state.db (Keyspace.handleCrdtdel state now name args).1.db := by
  by_cases blind : state.Blind name (args[1]?.getD [])
  · unfold Keyspace.handleCrdtdel
    simp only [Keyspace.ofFaulty]
    match args with
    | [named, key, tsArg, nodeArg] =>
        dsimp only
        obtain rfl : named = first := by simpa using head
        rcases admitted : state.db.incomingVersion now tsArg nodeArg with _ | ⟨observed, version⟩
        · exact Tends.refl wellFormed
        · rcases incomingVersion_clock admitted with ⟨clock, rfl⟩
          have clocked := (drafts_clock wellFormed clock)
          have failed : lookup { state with db := { state.db with clock } } now name key =
              (⟨{ state.db with clock }, state.reads.tail⟩, none) := lookup_of_blind blind
          have observed : Tends state.db { state.db with clock } :=
            ⟨clocked.wellFormed, clocked.frame, clocked.tidy, [], Node.Retains.of_same rfl rfl⟩
          unfold Keyspace.deleteFrom
          simp only [Keyspace.ofFaulty]
          rw [failed]
          dsimp only
          split
          · exact observed
          · refine observed.trans (tends_mark clocked.wellFormed ?_ key version)
            exact .inr (.inr (.inr (.inl ⟨command, by simp⟩)))
    | [] | [_] | [_, _] | [_, _, _] | _ :: _ :: _ :: _ :: _ :: _ => exact Tends.refl wellFormed
  · rw [(agrees_handleCrdtdel blind).db]
    exact (serves_handleCrdtdel wellFormed awake head command).tends

/-- A `CRDTMERGE` whose read fails writes nothing: it is refused, or stale
against the tombstone of its key or the watermark. -/
def MergeCareful (state : Faulty) (now : Nat) (name : Bytes) (args : List Bytes) : Prop :=
  ∀ first key value tsArg nodeArg more observed version,
    args = first :: key :: value :: tsArg :: nodeArg :: more →
    state.db.incomingVersion now tsArg nodeArg = .ok (observed, version) →
    state.Blind name key → state.db.stale name key none version = true

theorem tends_mergeInto_blind (wellFormed : state.db.WellFormed)
    {key tsArg nodeArg : Bytes} {observed : Db} {version : Version}
    (blind : state.Blind name key)
    (admitted : state.db.incomingVersion now tsArg nodeArg = .ok (observed, version))
    (old : state.db.stale name key none version = true) (value : Bytes) (args : List Bytes)
    (expireAt : Option Int) :
    Tends state.db
      (Keyspace.mergeInto { state with db := observed } now name key value args expireAt version).1.db := by
  rcases incomingVersion_clock admitted with ⟨clock, rfl⟩
  have clocked := drafts_clock wellFormed clock
  have failed : lookup { state with db := { state.db with clock } } now name key =
      (⟨{ state.db with clock }, state.reads.tail⟩, none) := lookup_of_blind blind
  have stale : Db.stale { state.db with clock } name key none version = true := old
  unfold Keyspace.mergeInto
  simp only [Keyspace.ofFaulty]
  rw [failed]
  dsimp only
  rw [if_pos stale]
  exact ⟨clocked.wellFormed, clocked.frame, clocked.tidy, [], Node.Retains.of_same rfl rfl⟩

theorem tends_handleCrdtmerge (wellFormed : state.db.WellFormed)
    (awake : state.db.Awake name) {args : List Bytes} {first : Bytes}
    (head : args.head? = some first) (command : upper first = ascii "CRDTMERGE")
    (careful : state.MergeCareful now name args) :
    Tends state.db (Keyspace.handleCrdtmerge state now name args).1.db := by
  by_cases blind : state.Blind name (args[1]?.getD [])
  · unfold Keyspace.handleCrdtmerge
    simp only [Keyspace.ofFaulty]
    match args with
    | [head, key, value, tsArg, nodeArg] =>
        dsimp only
        rcases admitted : state.db.incomingVersion now tsArg nodeArg with _ | ⟨_, _⟩
        · exact Tends.refl wellFormed
        · exact tends_mergeInto_blind wellFormed blind admitted
            (careful _ _ _ _ _ _ _ _ rfl admitted blind) _ _ _
    | [head, key, value, tsArg, nodeArg, expireArg] =>
        dsimp only
        cases parseI64 expireArg with
        | none => exact Tends.refl wellFormed
        | some expireAt =>
            dsimp only
            by_cases negative : expireAt < 0
            · rw [if_pos negative]
              exact Tends.refl wellFormed
            · rw [if_neg negative]
              rcases admitted : state.db.incomingVersion now tsArg nodeArg with _ | ⟨_, _⟩
              · exact Tends.refl wellFormed
              · exact tends_mergeInto_blind wellFormed blind admitted
                  (careful _ _ _ _ _ _ _ _ rfl admitted blind) _ _ _
    | [] | [_] | [_, _] | [_, _, _] | [_, _, _, _] | _ :: _ :: _ :: _ :: _ :: _ :: _ :: _ =>
        exact Tends.refl wellFormed
  · rw [(agrees_handleCrdtmerge blind).db]
    exact (serves_handleCrdtmerge wellFormed awake head command).tends

/-! ## The commands that need one lookup -/

theorem tends_handleGet (wellFormed : state.db.WellFormed) (awake : state.db.Awake name)
    (args : List Bytes) : Tends state.db (Keyspace.handleGet state now resp3 name args).1.db := by
  unfold Keyspace.handleGet
  simp only [Keyspace.ofFaulty]
  match args with
  | [_, _] => exact tends_lookup wellFormed awake now _
  | [] | [_] | _ :: _ :: _ :: _ => exact Tends.refl wellFormed

theorem tends_handleTtl (wellFormed : state.db.WellFormed) (awake : state.db.Awake name)
    (args : List Bytes) (millis : Bool) :
    Tends state.db (Keyspace.handleTtl state now name args millis).1.db := by
  unfold Keyspace.handleTtl
  simp only [Keyspace.ofFaulty]
  match args with
  | [head, key] =>
      dsimp only
      have looked := tends_lookup wellFormed awake now key
      rcases equal : state.lookup now name key with ⟨found, _ | record⟩
      · rw [equal] at looked
        exact looked
      · dsimp only
        rw [equal] at looked
        by_cases same : record.expireAt = 0
        · rw [if_pos same]
          exact looked
        · rw [if_neg same]
          exact looked
  | [] | [_] | _ :: _ :: _ :: _ => exact Tends.refl wellFormed

theorem tends_handleExpire (wellFormed : state.db.WellFormed) (awake : state.db.Awake name)
    (args : List Bytes) (scale : Int) :
    Tends state.db (Keyspace.handleExpire state now name args scale).1.db := by
  by_cases blind : state.Blind name (args[1]?.getD [])
  · have failed : state.lookup now name (args[1]?.getD []) =
        ({ state with reads := state.reads.tail }, none) := lookup_of_blind blind
    unfold Keyspace.handleExpire
    simp only [Keyspace.ofFaulty]
    simp only [failed]
    by_cases shape : (if scale ≠ 0 then args.length < 3 else args.length ≠ 2)
    · rw [if_pos shape]
      exact Tends.refl wellFormed
    · rw [if_neg shape]
      cases expireOptions {} (args.drop 3) with
      | error _ => exact Tends.refl wellFormed
      | ok options =>
          dsimp only
          by_cases clash : (options.nx && (options.xx || options.gt || options.lt)) = true
          · rw [if_pos clash]
            exact Tends.refl wellFormed
          · rw [if_neg clash]
            by_cases both : (options.gt && options.lt) = true
            · rw [if_pos both]
              exact Tends.refl wellFormed
            · rw [if_neg both]
              rcases expireDeadline now scale args with _ | ⟨_, _⟩
              · exact Tends.refl wellFormed
              · exact Tends.refl wellFormed
  · rw [(agrees_handleExpire scale blind).db]
    exact (serves_handleExpire wellFormed awake args scale).tends_local

/-- The command does not write a key right after failing to read it. -/
def Careful (state : Faulty) (now : Nat) (name : Bytes) (args : List Bytes) :
    RoomCommand → Prop
  | .set => state.SetCareful now name args
  | .mset => state.MsetCareful now name args
  | .crdtmerge => state.MergeCareful now name args
  | _ => True

theorem tends_runInRoom (wellFormed : state.db.WellFormed) (awake : state.db.Awake name)
    {args : List Bytes} {first : Bytes} (head : args.head? = some first)
    {kind : RoomCommand} (named : Command.named (upper first) = .inRoom kind)
    (careful : state.Careful now name args kind) :
    Tends state.db (Keyspace.runInRoom state now resp3 name args kind).1.db := by
  cases kind with
  | get => exact tends_handleGet wellFormed awake args
  | set => exact tends_handleSet wellFormed awake head (named_set named) careful
  | del => exact (deletes_handleDel wellFormed awake args).tends
  | crdtmerge => exact tends_handleCrdtmerge wellFormed awake head (named_crdtmerge named) careful
  | crdtdel => exact tends_handleCrdtdel wellFormed awake head (named_crdtdel named)
  | mget =>
      unfold Keyspace.runInRoom Keyspace.handleMget
      dsimp only
      match args with
      | _ :: _ :: _ => exact tends_mgetLoop wellFormed awake _ _
      | [] | [_] => exact Tends.refl wellFormed
  | mset => exact tends_handleMset wellFormed awake head (named_mset named) careful
  | exist =>
      unfold Keyspace.runInRoom Keyspace.handleExists
      dsimp only
      match args with
      | _ :: _ :: _ => exact tends_existsLoop wellFormed awake _ _
      | [] | [_] => exact Tends.refl wellFormed
  | expire => exact tends_handleExpire wellFormed awake args 1000
  | pexpire => exact tends_handleExpire wellFormed awake args 1
  | persist => exact tends_handleExpire wellFormed awake args 0
  | ttl => exact tends_handleTtl wellFormed awake args false
  | pttl => exact tends_handleTtl wellFormed awake args true
  | save => exact Tends.refl wellFormed
  | unknown => exact Tends.refl wellFormed

end Faulty

namespace Db

variable {config : Config} {db after : Db} {call : Call} {faults : ColdFaults}

/-! ## Commands -/

theorem Sane.tends (sane : Sane config db) (tends : Tends db after) : Sane config after where
  wellFormed := tends.wellFormed
  config := tends.frame.config.trans sane.config
  tidy := tends.tidy sane.tidy
  written := by
    rw [tends.frame.rewriteChild]
    exact sane.written

/-- The room of the client, as the handler of a command finds it. -/
def entered (db : Db) (call : Call) : Db × Bool :=
  let current := db.clientRoom call.clientFd
  ((db.setClientRoom call.clientFd current).findRoom current).activate call.now current false

/-- A command that starts from `db` writes no key right after failing to read it. -/
def CarefulCall (db : Db) (call : Call) (faults : ColdFaults) : Prop :=
  ∀ first kind, call.args.head? = some first →
    Command.named (upper first) = .inRoom kind → (db.entered call).2 = true →
    Faulty.Careful ⟨(db.entered call).1, faults.reads⟩ call.now (db.clientRoom call.clientFd)
      call.args kind

/-- What a command does to the invariant and to the content. -/
structure Handled (config : Config) (db after : Db) : Prop where
  sane : Sane config after
  retains : ∃ new, Node.Retains db.node after.node new

theorem Handled.of_steps {now : Nat} (sane : Sane config after)
    (steps : Node.Steps config now db.node after.node) : Handled config db after :=
  ⟨sane, Node.retains_steps steps⟩

theorem handled_kept {now : Nat} (sane : Sane config db) (kept : Kept now db after) :
    Handled config db after :=
  ⟨sane.kept kept, Node.retains_steps kept.steps⟩

theorem Handled.tends {last : Db} (handled : Handled config db after)
    (tends : Tends after last) : Handled config db last := by
  rcases handled.retains with ⟨front, left⟩
  rcases tends.retains with ⟨back, right⟩
  exact ⟨handled.sane.tends tends, front ++ back, left.trans right⟩

theorem tends_evictDespisedKeys {name : Bytes} (wellFormed : db.WellFormed)
    (awake : db.Awake name) (victims : List Bytes) :
    Tends db (db.evictDespisedKeys name victims) :=
  (serves_evictDespisedKeys wellFormed awake victims : Serves Node.Step 0 _ _).tends

/-- A command that does not run in a room looks no key up. -/
theorem dispatchFaulty_cases (db : Db) (call : Call) (faults : ColdFaults) (name : Bytes) :
    db.dispatchFaulty call faults name = db.dispatch call name ∨
      (db.dispatchFaulty call faults name).1 =
        db.setClientRoom call.clientFd (db.clientRoom call.clientFd) ∨
      ∃ kind, Command.named name = .inRoom kind ∧
        db.dispatchFaulty call faults name =
          (db.setClientRoom call.clientFd (db.clientRoom call.clientFd)).executeInRoomFaulty call
            faults (db.clientRoom call.clientFd) kind := by
  unfold dispatchFaulty
  dsimp only
  by_cases subscribed : call.subscribed = true
  · rw [if_pos subscribed]
    exact .inl rfl
  · rw [if_neg subscribed]
    cases Command.named name with
    | elsewhere => exact .inl rfl
    | inRoom kind => exact .inr (.inr ⟨kind, rfl, rfl⟩)
    | connection kind =>
        cases kind with
        | compact =>
            dsimp only
            by_cases compacts : faults.compacts = true
            · rw [if_pos compacts]
              exact .inl rfl
            · rw [if_neg compacts]
              exact .inr (.inl rfl)
        | _ => exact .inl rfl

/-- The handler in the room, then eviction. -/
theorem handled_executeInRoomFaulty (sane : Sane config db) {first : Bytes} {kind : RoomCommand}
    (head : call.args.head? = some first)
    (named : Command.named (upper first) = .inRoom kind) (name : Bytes)
    (careful : ((db.findRoom name).activate call.now name false).2 = true →
      Faulty.Careful ⟨((db.findRoom name).activate call.now name false).1, faults.reads⟩ call.now
        name call.args kind) :
    Handled config db (db.executeInRoomFaulty call faults name kind).1 := by
  rcases open_spec sane.wellFormed call.now name with ⟨kept, _, woken⟩
  have reached := handled_kept sane kept
  unfold executeInRoomFaulty executeInRoomWith
  dsimp only
  generalize (db.findRoom name).activate call.now name false = outcome at careful kept woken reached
  rcases outcome with ⟨awake, entered⟩
  cases entered with
  | false => exact reached
  | true =>
      have handled : Tends awake (Keyspace.runInRoom (⟨awake, faults.reads⟩ : Faulty) call.now
          call.resp3 name call.args kind).1.db :=
        @Faulty.tends_runInRoom ⟨awake, faults.reads⟩ call.now _ call.resp3
          reached.sane.wellFormed (woken rfl) _ _ head _ named (careful rfl)
      exact (reached.tends handled).tends (tends_evictDespisedKeys handled.wellFormed
        (handled.frame.awake (woken rfl)) call.victims)

theorem Handled.trans {last : Db} (left : Handled config db after)
    (right : Handled config after last) : Handled config db last := by
  rcases left.retains with ⟨front, first⟩
  rcases right.retains with ⟨back, later⟩
  exact ⟨right.sane, front ++ back, first.trans later⟩

theorem handled_dispatchFaulty (sane : Sane config db) {first : Bytes}
    (head : call.args.head? = some first) (careful : db.CarefulCall call faults) :
    Handled config db (db.dispatchFaulty call faults (upper first)).1 := by
  have known : Handled config db (db.setClientRoom call.clientFd (db.clientRoom call.clientFd)) :=
    handled_kept sane (kept_setClientRoom sane.wellFormed _ _ : Kept 0 _ _)
  rcases dispatchFaulty_cases db call faults (upper first) with same | same | ⟨kind, named, same⟩
  · rw [same]
    have dispatched := dispatched_dispatch sane.wellFormed call head
    have steps := dispatched.steps
    rw [sane.config] at steps
    exact Handled.of_steps (sane.dispatched dispatched) steps
  · rw [same]
    exact known
  · rw [same]
    exact known.trans
      (handled_executeInRoomFaulty known.sane head named _ (careful first kind head named))

/-- The records that a command appends, after the work that precedes it. -/
def appendedFaulty (db : Db) (call : Call) (faults : ColdFaults) : List AofRecord :=
  match call.args with
  | [] => []
  | _ :: _ => (db.executeFaulty call faults).1.aof.drop (db.beginCommand call).aof.length

/-- A key for which a `DEL` logs its removal is nowhere afterwards. -/
theorem gone_of_del (sane : Sane config db) {first : Bytes}
    (named : Command.named (upper first) = .inRoom .del) {record : AofRecord} {key : Bytes}
    (member : record ∈ (db.dispatchFaulty call faults (upper first)).1.aof.drop db.aof.length)
    (args : record.args = [ascii "DEL", key]) :
    (db.dispatchFaulty call faults (upper first)).1.held (record.room, key) = none := by
  have nothing : ∀ other : Db, other.aof = db.aof → record ∉ other.aof.drop db.aof.length := by
    intro other same
    rw [same, List.drop_length]
    simp
  have known : Kept call.now db
      (db.setClientRoom call.clientFd (db.clientRoom call.clientFd)) :=
    kept_setClientRoom sane.wellFormed _ _
  unfold dispatchFaulty dispatch at member ⊢
  simp only [named] at member ⊢
  by_cases subscribed : call.subscribed = true
  · rw [if_pos subscribed, if_pos subscribed] at member
    exact absurd member (nothing _ rfl)
  · rw [if_neg subscribed] at member ⊢
    rcases open_spec known.wellFormed call.now (db.clientRoom call.clientFd) with
      ⟨kept, rearranged, woken⟩
    unfold executeInRoomFaulty executeInRoomWith at member ⊢
    dsimp only at member ⊢
    generalize ((db.setClientRoom call.clientFd (db.clientRoom call.clientFd)).findRoom
      (db.clientRoom call.clientFd)).activate call.now (db.clientRoom call.clientFd)
        false = outcome at kept woken rearranged member
    rcases outcome with ⟨awake, entered⟩
    have sameLog : awake.aof = db.aof := congrArg Node.log rearranged.node
    cases entered with
    | false => exact absurd member (nothing _ sameLog)
    | true =>
        have deletes := @Faulty.deletes_handleDel ⟨awake, faults.reads⟩ call.now _
          kept.wellFormed (woken rfl) call.args
        have evicted := acts_evictDespisedKeys deletes.tends.wellFormed
          (deletes.tends.frame.awake (woken rfl)) call.victims
        rcases deletes.log with ⟨new, grown, each⟩
        have log : (evictDespisedKeys _ _ _).aof = awake.aof ++ new :=
          (congrArg Node.log evicted.node).trans grown
        have appended : record ∈ new := by
          dsimp only [Keyspace.runInRoom] at member
          rw [log, sameLog, List.drop_left] at member
          exact member
        rcases each record appended with ⟨room, other, equal, gone⟩
        have sameKey : key = other := by
          rw [args] at equal
          simpa using equal
        rw [room, sameKey]
        exact (congrFun (congrArg Node.held evicted.node) _).trans gone

end Db

end SomniumDB
