import SomniumDB.Abstract.View

/-! # The commands on keys refine the steps of a node

Each handler, run in an awake room, takes the logical content of the database
along steps of the abstract node. -/

namespace SomniumDB

open Bytes FsUtil

namespace Db

/-- A run of steps of the kind `relation`, inside one awake room. -/
structure Serves (relation : Config → Nat → Node → Node → Prop) (now : Nat)
    (db after : Db) : Prop where
  steps : Relation.ReflTransGen (relation db.config now) db.node after.node
  wellFormed : after.WellFormed
  frame : Frame db after
  /-- New records of the log are of awake rooms. -/
  logged : ∀ record ∈ after.aof, record ∈ db.aof ∨ db.Awake record.room

variable {relation : Config → Nat → Node → Node → Prop} {now : Nat}

theorem Serves.refl {db : Db} (wellFormed : db.WellFormed) :
    Serves relation now db db :=
  ⟨.refl, wellFormed, Frame.refl db, fun _ member => .inl member⟩

theorem Serves.trans {first second third : Db} (left : Serves relation now first second)
    (right : Serves relation now second third) : Serves relation now first third := by
  refine ⟨left.steps.trans ?_, right.wellFormed, left.frame.trans right.frame, ?_⟩
  · rw [← left.frame.config]
    exact right.steps
  · intro record member
    rcases right.logged record member with earlier | awake
    · exact left.logged record earlier
    · exact .inr ((left.frame.state record.room).symm.trans awake)

theorem Serves.of_local {db after : Db} (served : Serves Node.Local now db after) :
    Serves Node.Step now db after :=
  ⟨Node.Locals.steps served.steps, served.wellFormed, served.frame, served.logged⟩

theorem Serves.of_shed {db after : Db} (served : Serves Node.Shed now db after) :
    Serves Node.Local now db after :=
  ⟨Relation.ReflTransGen.mono (fun _ _ shed => shed.isLocal) _ _ served.steps,
    served.wellFormed, served.frame, served.logged⟩

theorem Acts.serves {db after : Db} {node : Node} (acts : Acts db after node)
    (steps : Relation.ReflTransGen (relation db.config now) db.node node)
    (logged : ∀ record ∈ node.log, record ∈ db.node.log ∨ db.Awake record.room) :
    Serves relation now db after := by
  refine ⟨acts.node ▸ steps, acts.wellFormed, acts.frame, ?_⟩
  intro record member
  have same : after.aof = node.log := congrArg Node.log acts.node
  exact logged record (same ▸ member)

/-- Reading changes no log. -/
theorem Acts.serves_quiet {db after : Db} {node : Node} (acts : Acts db after node)
    (steps : Relation.ReflTransGen (relation db.config now) db.node node)
    (quiet : node.log = db.node.log) : Serves relation now db after :=
  acts.serves steps fun _ member => .inl (quiet ▸ member)

theorem Acts.serves_commit {db after : Db} {record : AofRecord}
    (acts : Acts db after (db.node.commit db.config record))
    (step : relation db.config now db.node (db.node.commit db.config record))
    (awake : db.Awake record.room) : Serves relation now db after := by
  apply acts.serves (.single step)
  intro other member
  rcases List.mem_append.mp member with earlier | new
  · exact .inl earlier
  · rw [List.mem_singleton.mp new]
    exact .inr awake

section Handlers

variable {db : Db} {name : Bytes}

/-! ## Reading -/

theorem serves_lookup (wellFormed : db.WellFormed) (awake : db.Awake name)
    (now : Nat) (key : Bytes) :
    Serves Node.Shed now db (db.lookup now name key).1 :=
  (lookup_spec wellFormed awake now key).1.serves_quiet
    (.single (Node.shed_touch _ _ _ _)) rfl

theorem serves_handleGet (wellFormed : db.WellFormed) (awake : db.Awake name)
    (resp3 : Bool) (args : List Bytes) :
    Serves Node.Shed now db (db.handleGet now resp3 name args).1 := by
  unfold handleGet Keyspace.handleGet
  simp only [Keyspace.ofDb]
  match args with
  | [_, _] => exact serves_lookup wellFormed awake now _
  | [] | [_] | _ :: _ :: _ :: _ => exact Serves.refl wellFormed

theorem serves_mgetLoop (wellFormed : db.WellFormed) (awake : db.Awake name)
    (resp3 : Bool) (out : Bytes) (keys : List Bytes) :
    Serves Node.Shed now db (db.mgetLoop now resp3 name out keys).1 := by
  induction keys generalizing db out with
  | nil => exact Serves.refl wellFormed
  | cons key rest induction =>
      have served := serves_lookup wellFormed awake now key
      unfold mgetLoop Keyspace.mgetLoop
      simp only [Keyspace.ofDb]
      rcases equal : db.lookup now name key with ⟨found, _ | record⟩
      · rw [equal] at served
        exact served.trans
          (induction served.wellFormed (served.frame.awake awake) _)
      · dsimp only
        rw [equal] at served
        by_cases long : maxReply < out.length + record.value.length
        · rw [if_pos long]
          exact served
        · rw [if_neg long]
          exact served.trans
            (induction served.wellFormed (served.frame.awake awake) _)

theorem serves_handleMget (wellFormed : db.WellFormed) (awake : db.Awake name)
    (resp3 : Bool) (args : List Bytes) :
    Serves Node.Shed now db (db.handleMget now resp3 name args).1 := by
  unfold handleMget Keyspace.handleMget
  simp only [Keyspace.ofDb]
  match args with
  | _ :: _ :: _ => exact serves_mgetLoop wellFormed awake _ _ _
  | [] | [_] => exact Serves.refl wellFormed

theorem serves_existsLoop (wellFormed : db.WellFormed) (awake : db.Awake name)
    (count : Nat) (keys : List Bytes) :
    Serves Node.Shed now db (db.existsLoop now name count keys).1 := by
  induction keys generalizing db count with
  | nil => exact Serves.refl wellFormed
  | cons key rest induction =>
      have served := serves_lookup wellFormed awake now key
      exact served.trans (induction served.wellFormed (served.frame.awake awake) _)

theorem serves_handleExists (wellFormed : db.WellFormed) (awake : db.Awake name)
    (args : List Bytes) :
    Serves Node.Shed now db (db.handleExists now name args).1 := by
  unfold handleExists Keyspace.handleExists
  simp only [Keyspace.ofDb]
  match args with
  | _ :: _ :: _ => exact serves_existsLoop wellFormed awake _ _
  | [] | [_] => exact Serves.refl wellFormed

theorem serves_handleTtl (wellFormed : db.WellFormed) (awake : db.Awake name)
    (args : List Bytes) (millis : Bool) :
    Serves Node.Shed now db (db.handleTtl now name args millis).1 := by
  unfold handleTtl Keyspace.handleTtl
  simp only [Keyspace.ofDb]
  match args with
  | [head, key] =>
      dsimp only
      have served := serves_lookup wellFormed awake now key
      rcases equal : db.lookup now name key with ⟨found, _ | record⟩
      · rw [equal] at served
        exact served
      · dsimp only
        rw [equal] at served
        by_cases same : record.expireAt = 0
        · rw [if_pos same]
          exact served
        · rw [if_neg same]
          exact served
  | [] | [_] | _ :: _ :: _ :: _ => exact Serves.refl wellFormed

/-! ## Writing one key -/

/-- The record found, or a fresh one, is completed by `new`. -/
theorem acts_store (wellFormed : db.WellFormed) (awake : db.Awake name) {key : Bytes}
    {record : Option Record} (found : Found db name key record)
    (heldHere : db.node.held (name, key) = record) (new : Record) :
    Acts db ((db.recordFor name key record).1.assign name key
        (db.recordFor name key record).2 new)
      (db.node.apply db.config (.put (name, key) new)) := by
  cases record with
  | some old =>
      have acts := acts_insertKey wellFormed awake found.cold new
        ((new.value.length : Int) - old.value.length) 0
      simpa [recordFor, assign, Node.apply, heldHere] using acts
  | none =>
      have inserted := acts_insertKey wellFormed awake found.cold {} (recordCost key {}) 1
      have cleared := acts_clearTomb inserted.wellFormed name key
      have cold : ((db.insert name key).clearTomb name key).cold.find name key = none := by
        rcases clearTomb_eq (db.insert name key) name key with ⟨tombstones, metrics, equal⟩
        rw [equal]
        exact found.cold
      have stored := acts_insertKey cleared.wellFormed
        ((inserted.trans cleared).frame.awake awake) cold new
        ((new.value.length : Int) - ({} : Record).value.length) 0
      have acts := (inserted.trans cleared).trans stored
      rw [cleared.node, inserted.node] at acts
      simp only [recordFor, assign, Node.apply, heldHere, Option.isNone_none, if_true]
      refine ⟨acts.node.trans ?_, acts.wellFormed, acts.frame⟩
      simp only [Node.hold, Node.bury, Function.update_idem]

theorem node_withClock (db : Db) (clock : Nat) :
    { db with clock }.node = { db.node with clock } := rfl

theorem WellFormed.withClock (wellFormed : db.WellFormed) (clock : Nat) :
    WellFormed { db with clock } :=
  (acts_clock wellFormed clock).wellFormed

theorem Awake.withClock (awake : db.Awake name) (clock : Nat) :
    Awake { db with clock } name := awake

theorem Found.withClock {key : Bytes} {record : Option Record}
    (found : Found db name key record) (clock : Nat) :
    Found { db with clock } name key record :=
  ⟨found.ram, found.cold⟩

/-- A local write of the key under a new reading of the clock. -/
theorem acts_writeKey (wellFormed : db.WellFormed) (awake : db.Awake name) {key : Bytes}
    {record : Option Record} (found : Found db name key record)
    (heldHere : db.node.held (name, key) = record) (value : Bytes) (expireAt : Int)
    (clock version : Nat) :
    Acts { db with clock }
      ({ db with clock }.writeKey name key value expireAt version record)
      ({ db with clock }.node.apply db.config (.put (name, key)
        { value, expireAt, timestampMs := version, nodeId := db.config.nodeId })) :=
  acts_store (wellFormed.withClock clock) (awake.withClock clock)
    (found.withClock clock) heldHere _

theorem frame_clock (clock : Nat) : Frame db { db with clock } :=
  ⟨rfl, rfl, rfl, rfl, rfl, rfl, rfl, fun _ => .rfl, fun _ => rfl, fun _ _ => rfl⟩

/-- The changes of a record, then the record itself in the log. -/
theorem acts_commit {mid : Db} {record : AofRecord}
    (acts : Acts { db with clock := max db.clock record.timestampMs } mid
      ({ db with clock := max db.clock record.timestampMs }.node.applyAll db.config
        record.changes)) :
    Acts db (mid.append record) (db.node.commit db.config record) := by
  have appended := acts_append acts.wellFormed record
  rw [acts.node, node_withClock, Node.applyAll_withClock] at appended
  refine ⟨appended.node.trans ?_, appended.wellFormed,
    (frame_clock _).trans (acts.frame.trans appended.frame)⟩
  simp only [Node.commit, Node.applyAll_log]
  rfl

/-- A clock that moves to a version above it. -/
theorem acts_commit_fresh {mid : Db} {record : AofRecord}
    (fresh : db.clock < record.timestampMs)
    (acts : Acts { db with clock := record.timestampMs } mid
      ({ db with clock := record.timestampMs }.node.applyAll db.config record.changes)) :
    Acts db (mid.append record) (db.node.commit db.config record) := by
  have later : max db.clock record.timestampMs = record.timestampMs := max_eq_right fresh.le
  apply acts_commit
  rw [later]
  exact acts

theorem changes_set {record : AofRecord} {first key value : Bytes} {options : List Bytes}
    (args : record.args = first :: key :: value :: options)
    (command : upper first = ascii "SET") :
    record.changes = [record.put key value] := by
  simp [AofRecord.changes, args, command]

/-- Changes to places that were just read are issued as one record. -/
theorem acts_issue {mid : Db} {record : AofRecord} {bound clock : Nat}
    (versionEq : record.timestampMs = Hlc.next db.clock now bound)
    (clockEq : clock = record.timestampMs)
    (acts : Acts { db with clock } mid
      ({ db with clock }.node.applyAll db.config record.changes))
    (origin : record.nodeId = db.config.nodeId) (sound : record.Sound)
    (each : ∀ change ∈ record.changes,
      (∀ held, db.node.held change.place = some held → held.expired now = false) ∧
        db.node.overwritten change.place ≤ bound)
    (present : ∀ place version, .del place version ∈ record.changes →
      (db.node.held place).isSome) :
    Node.Issued db.config now db.node record ∧
      Acts db (mid.append record) (db.node.commit db.config record) := by
  subst clockEq
  have fresh : db.clock < record.timestampMs := versionEq ▸ Hlc.last_lt_next _ _ _
  have above : bound < record.timestampMs := versionEq ▸ Hlc.overwritten_lt_next _ _ _
  refine ⟨Node.Issued.of_current origin sound fresh ?_ ?_ present,
    acts_commit_fresh fresh acts⟩
  · rw [versionEq]
    exact Hlc.now_le_next _ _ _
  · intro change member
    exact ⟨(each change member).1, (each change member).2.trans_lt above⟩

/-- A write or delete of one key that was just read. -/
theorem serves_issue {mid : Db} {record : AofRecord} {change : Change} {clock : Nat}
    (single : record.changes = [change])
    (versionEq : record.timestampMs =
      Hlc.next db.clock now (db.node.overwritten change.place))
    (clockEq : clock = record.timestampMs)
    (acts : Acts { db with clock } mid ({ db with clock }.node.apply db.config change))
    (origin : record.nodeId = db.config.nodeId) (sound : record.Sound)
    (current : ∀ held, db.node.held change.place = some held → held.expired now = false)
    (present : ∀ place version, change = .del place version →
      (db.node.held place).isSome) (awake : db.Awake record.room) :
    Serves Node.Local now db (mid.append record) := by
  obtain ⟨issued, committed⟩ := acts_issue versionEq clockEq
    (by rw [single]; exact acts) origin sound
    (by
      rw [single]
      intro other member
      obtain rfl := List.mem_singleton.mp member
      exact ⟨current, le_rfl⟩)
    (by
      rw [single]
      intro place version member
      exact present place version (List.mem_singleton.mp member).symm)
  exact committed.serves_commit (.issue record issued) awake

/-- What a command needs to know of the key it has read. -/
structure Read (now : Nat) (db after : Db) (name key : Bytes) (record : Option Record) :
    Prop where
  served : Serves Node.Local now db after
  found : Found after name key record
  held : after.node.held (name, key) = record
  current : ∀ held, after.node.held (name, key) = some held → held.expired now = false
  config : after.config = db.config
  awake : after.Awake name

theorem read_lookup (wellFormed : db.WellFormed) (awake : db.Awake name) (now : Nat)
    (key : Bytes) :
    Read now db (db.lookup now name key).1 name key (db.lookup now name key).2 := by
  rcases lookup_spec wellFormed awake now key with ⟨acts, result, found⟩
  refine ⟨(serves_lookup wellFormed awake now key).of_shed, found, ?_, ?_, acts.frame.config,
    acts.frame.awake awake⟩
  · rw [acts.node, result]
  · rw [acts.node]
    exact Node.touch_current now _ _

theorem serves_handleSet (wellFormed : db.WellFormed) (awake : db.Awake name)
    (resp3 : Bool) {args : List Bytes} {first : Bytes} (head : args.head? = some first)
    (command : upper first = ascii "SET") :
    Serves Node.Local now db (db.handleSet now resp3 name args).1 := by
  unfold handleSet Keyspace.handleSet
  simp only [Keyspace.ofDb]
  match args with
  | _ :: key :: value :: options =>
      dsimp only
      obtain rfl : _ = first := by simpa using head
      cases setOptions now {} options with
      | error _ => exact Serves.refl wellFormed
      | ok options =>
          have read := read_lookup wellFormed awake now key
          generalize db.lookup now name key = looked at read
          rcases looked with ⟨after, record⟩
          dsimp only at read ⊢
          by_cases refused : (options.nx && record.isSome || options.xx && record.isNone) = true
          · rw [if_pos refused]
            exact read.served
          · rw [if_neg refused]
            refine read.served.trans ?_
            rw [← read.config, ← read.held]
            refine serves_issue (changes_set rfl command) rfl rfl ?_ rfl ?_ read.current ?_
              read.awake
            · exact acts_writeKey read.served.wellFormed read.awake (read.held ▸ read.found) rfl
                value options.expireAt _ _
            · simp [AofRecord.Sound, command]
            · simp [AofRecord.put]
  | [] | [_] | [_, _] => exact Serves.refl wellFormed

/-! ## Deleting and deadlines -/

/-- Erasing the key and marking it, under a new reading of the clock. -/
theorem acts_delete (wellFormed : db.WellFormed) (awake : db.Awake name) {key : Bytes}
    (cold : db.cold.find name key = none) (clock : Nat) (version : Version) :
    Acts { db with clock } (({ db with clock }.erase name key).setTomb name key version)
      ({ db with clock }.node.apply db.config (.del (name, key) version)) := by
  have erased := acts_erase (wellFormed.withClock clock) (awake.withClock clock) cold
  have marked := acts_setTomb erased.wellFormed name key version
  rw [erased.node, erased.frame.config] at marked
  exact erased.trans marked

theorem changes_del {record : AofRecord} {key : Bytes}
    (args : record.args = [ascii "DEL", key]) :
    record.changes = [.del (record.room, key) record.version] := by
  have upperDel : upper (ascii "DEL") = ascii "DEL" := by decide
  have others : ascii "DEL" ≠ ascii "CRDTMERGE" ∧ ascii "DEL" ≠ ascii "SET" ∧
      ascii "DEL" ≠ ascii "MSET" := by decide
  simp [AofRecord.changes, args, upperDel, others]

theorem serves_delete {after : Db} {key : Bytes} {record : Record}
    (read : Read now db after name key (some record)) :
    Serves Node.Local now db
      ((({ after with
          clock := Hlc.next after.clock now record.timestampMs }.erase name key).setTomb
        name key ⟨Hlc.next after.clock now record.timestampMs, db.config.nodeId⟩).append
        { room := name, args := [ascii "DEL", key]
          timestampMs := Hlc.next after.clock now record.timestampMs
          nodeId := db.config.nodeId }) := by
  have upperDel : upper (ascii "DEL") = ascii "DEL" := by decide
  have overwrites : after.node.overwritten (name, key) = record.timestampMs := by
    rw [Node.overwritten, read.held]
    rfl
  refine read.served.trans ?_
  rw [← read.config]
  refine serves_issue (changes_del rfl) ?_ rfl ?_ rfl ?_ read.current ?_ read.awake
  · exact congrArg (Hlc.next after.clock now) overwrites.symm
  · exact acts_delete read.served.wellFormed read.awake read.found.cold _ _
  · simp [AofRecord.Sound, upperDel]
  · rintro place version equal
    cases equal
    rw [read.held]
    rfl

theorem serves_delLoop (wellFormed : db.WellFormed) (awake : db.Awake name)
    (count : Nat) (keys : List Bytes) :
    Serves Node.Local now db (db.delLoop now name count keys).1 := by
  induction keys generalizing db count with
  | nil => exact Serves.refl wellFormed
  | cons key rest induction =>
      have read := read_lookup wellFormed awake now key
      unfold delLoop Keyspace.delLoop
      simp only [Keyspace.ofDb]
      rcases equal : db.lookup now name key with ⟨found, _ | record⟩
      · rw [equal] at read
        exact read.served.trans (induction read.served.wellFormed read.awake _)
      · rw [equal] at read
        have deleted := serves_delete read
        exact deleted.trans
          (induction deleted.wellFormed (deleted.frame.awake awake) _)

theorem serves_handleDel (wellFormed : db.WellFormed) (awake : db.Awake name)
    (args : List Bytes) :
    Serves Node.Local now db (db.handleDel now name args).1 := by
  unfold handleDel Keyspace.handleDel
  simp only [Keyspace.ofDb]
  match args with
  | _ :: _ :: _ => exact serves_delLoop wellFormed awake _ _
  | [] | [_] => exact Serves.refl wellFormed

/-- The record in RAM gets a new deadline and a new version. -/
theorem acts_assign (wellFormed : db.WellFormed) (awake : db.Awake name) {key : Bytes}
    {record : Record} (found : Found db name key (some record))
    (heldHere : db.node.held (name, key) = some record) (clock : Nat) (new : Record) :
    Acts { db with clock } ({ db with clock }.assign name key record new)
      ({ db with clock }.node.apply db.config (.put (name, key) new)) :=
  acts_store (wellFormed.withClock clock) (awake.withClock clock)
    (found.withClock clock) heldHere new

theorem serves_handleExpire (wellFormed : db.WellFormed) (awake : db.Awake name)
    (args : List Bytes) (scale : Int) :
    Serves Node.Local now db (db.handleExpire now name args scale).1 := by
  have upperSet : upper (ascii "SET") = ascii "SET" := by decide
  unfold handleExpire Keyspace.handleExpire
  simp only [Keyspace.ofDb]
  by_cases shape : (if scale ≠ 0 then args.length < 3 else args.length ≠ 2)
  · rw [if_pos shape]
    exact Serves.refl wellFormed
  · rw [if_neg shape]
    cases expireOptions {} (args.drop 3) with
    | error _ => exact Serves.refl wellFormed
    | ok options =>
        dsimp only
        by_cases clash : (options.nx && (options.xx || options.gt || options.lt)) = true
        · rw [if_pos clash]
          exact Serves.refl wellFormed
        · rw [if_neg clash]
          by_cases both : (options.gt && options.lt) = true
          · rw [if_pos both]
            exact Serves.refl wellFormed
          · rw [if_neg both]
            rcases expireDeadline now scale args with _ | ⟨n, expireAt⟩
            · exact Serves.refl wellFormed
            · generalize args[1]?.getD [] = key
              have read := read_lookup wellFormed awake now key
              rcases equal : db.lookup now name key with ⟨found, _ | record⟩
              · rw [equal] at read
                exact read.served
              · rw [equal] at read
                by_cases refused : scale = 0 ∧ record.expireAt = 0 ∨
                    expireRefused options record expireAt = true
                · simp only [if_pos refused]
                  exact read.served
                · simp only [if_neg refused]
                  by_cases spent : scale ≠ 0 ∧ n ≤ 0
                  · rw [if_pos spent]
                    exact read.served.trans
                      (serves_handleDel read.served.wellFormed read.awake _)
                  · rw [if_neg spent]
                    refine read.served.trans ?_
                    rw [← read.config]
                    have overwrites : found.node.overwritten (name, key) =
                        record.timestampMs := by
                      rw [Node.overwritten, read.held]
                      rfl
                    refine serves_issue (changes_set rfl upperSet) ?_ rfl ?_ rfl ?_
                      read.current ?_ read.awake
                    · exact congrArg (Hlc.next found.clock now) overwrites.symm
                    · exact acts_assign read.served.wellFormed read.awake read.found
                        read.held _ _
                    · simp [AofRecord.Sound, upperSet]
                    · simp [AofRecord.put]

/-! ## MSET -/

/-- The first loop reads every key and finds a bound on what it overwrites. -/
theorem overwritten_spec (wellFormed : db.WellFormed) (awake : db.Awake name)
    (now greatest : Nat) (pairs : List (Bytes × Bytes)) :
    Acts db (db.overwritten now name greatest pairs).1
        (db.node.touchAll now (pairs.map fun pair => (name, pair.1))) ∧
      greatest ≤ (db.overwritten now name greatest pairs).2 ∧
      ∀ pair ∈ pairs, (db.node.touchAll now
        (pairs.map fun pair => (name, pair.1))).overwritten (name, pair.1) ≤
          (db.overwritten now name greatest pairs).2 := by
  induction pairs generalizing db greatest with
  | nil => exact ⟨Acts.refl wellFormed, le_rfl, by simp⟩
  | cons pair rest induction =>
      rcases pair with ⟨key, value⟩
      rcases lookup_spec wellFormed awake now key with ⟨acts, result, found⟩
      have read := read_lookup wellFormed awake now key
      rcases induction acts.wellFormed (acts.frame.awake awake)
        (max greatest ((db.lookup now name key).1.node.overwritten (name, key))) with
        ⟨looped, bound, each⟩
      have same : db.overwritten now name greatest ((key, value) :: rest) =
          (db.lookup now name key).1.overwritten now name
            (max greatest ((db.lookup now name key).1.node.overwritten (name, key))) rest := by
        rw [Node.overwritten, read.held]
        rfl
      rw [same]
      have touched : db.node.touchAll now
          (((key, value) :: rest).map fun pair => (name, pair.1)) =
          (db.lookup now name key).1.node.touchAll now
            (rest.map fun pair => (name, pair.1)) := by
        rw [acts.node]
        rfl
      rw [touched]
      refine ⟨acts.trans looped, (le_max_left _ _).trans bound, ?_⟩
      intro other member
      rcases List.mem_cons.mp member with rfl | later
      · rw [Node.overwritten_touchAll read.current]
        exact (le_max_right _ _).trans bound
      · exact each other later

/-- The second loop writes the pairs in order. -/
theorem acts_writePairs (wellFormed : db.WellFormed) (awake : db.Awake name)
    (version : Nat) (pairs : List (Bytes × Bytes))
    (current : ∀ pair ∈ pairs, ∀ held, db.node.held (name, pair.1) = some held →
      held.expired now = false) :
    Acts db (db.writePairs now name version pairs)
      (db.node.applyAll db.config (pairs.map fun pair => .put (name, pair.1)
        { value := pair.2, timestampMs := version, nodeId := db.config.nodeId })) := by
  induction pairs generalizing db with
  | nil => exact Acts.refl wellFormed
  | cons pair rest induction =>
      rcases pair with ⟨key, value⟩
      rcases lookup_spec wellFormed awake now key with ⟨acts, result, found⟩
      have read := read_lookup wellFormed awake now key
      have unchanged := Node.touch_of_current (current _ List.mem_cons_self)
      rw [unchanged] at acts
      have stored := acts_store acts.wellFormed read.awake read.found read.held
        { value, timestampMs := version, nodeId := (db.lookup now name key).1.config.nodeId }
      have written := acts.trans stored
      rw [acts.node, acts.frame.config] at written
      have looped := induction written.wellFormed (written.frame.awake awake) (by
        intro other member held here
        rw [written.node, Node.apply_held] at here
        by_cases written : (name, other.1) = (Change.put (name, key)
            { value, timestampMs := version, nodeId := db.config.nodeId }).place
        · rw [if_pos written] at here
          cases here
          simp [Record.expired]
        · rw [if_neg written] at here
          exact current other (List.mem_cons_of_mem _ member) held here)
      have chained := written.trans looped
      rw [written.node, written.frame.config] at chained
      have same : db.writePairs now name version ((key, value) :: rest) =
          (((db.lookup now name key).1.recordFor name key
              (db.lookup now name key).2).1.assign name key
            ((db.lookup now name key).1.recordFor name key
              (db.lookup now name key).2).2
            { value, timestampMs := version
              nodeId := (db.lookup now name key).1.config.nodeId }).writePairs now name
            version rest := rfl
      rw [same, acts.frame.config]
      exact chained

/-- The changes of an `MSET` in the room `name`. -/
def msetChanges (name : Bytes) (version nodeId : Nat) (pairs : List (Bytes × Bytes)) :
    List Change :=
  pairs.map fun pair =>
    .put (name, pair.1) { value := pair.2, timestampMs := version, nodeId }

theorem acts_writePairs_withClock (wellFormed : db.WellFormed) (awake : db.Awake name)
    (clock version : Nat) (pairs : List (Bytes × Bytes))
    (current : ∀ pair ∈ pairs, ∀ held, db.node.held (name, pair.1) = some held →
      held.expired now = false) :
    Acts { db with clock } ({ db with clock }.writePairs now name version pairs)
      ({ db with clock }.node.applyAll db.config
        (msetChanges name version db.config.nodeId pairs)) :=
  acts_writePairs (wellFormed.withClock clock) (awake.withClock clock) version pairs current

theorem changes_mset {record : AofRecord} {first : Bytes} {rest : List Bytes}
    (args : record.args = first :: rest) (command : upper first = ascii "MSET")
    (persistent : record.expireAt = 0) :
    record.changes =
      msetChanges record.room record.timestampMs record.nodeId (pairsOf rest) := by
  have others : ascii "MSET" ≠ ascii "CRDTMERGE" ∧ ascii "MSET" ≠ ascii "SET" := by decide
  simp [AofRecord.changes, args, command, others, msetChanges, AofRecord.put, persistent]

/-- The record of an `MSET`. -/
def msetRecord (name : Bytes) (args : List Bytes) (version nodeId : Nat) : AofRecord :=
  { room := name, args, timestampMs := version, nodeId }

/-- Once its keys have been read, an `MSET` issues one record. -/
theorem acts_mset (wellFormed : db.WellFormed) (awake : db.Awake name) {first : Bytes}
    (rest : List Bytes) (command : upper first = ascii "MSET") {version bound : Nat}
    (versionEq : version = Hlc.next db.clock now bound)
    (each : ∀ pair ∈ pairsOf rest,
      (∀ held, db.node.held (name, pair.1) = some held → held.expired now = false) ∧
        db.node.overwritten (name, pair.1) ≤ bound) :
    Node.Issued db.config now db.node
        (msetRecord name (first :: rest) version db.config.nodeId) ∧
      Acts db (({ db with clock := version }.writePairs now name version
          (pairsOf rest)).append
          (msetRecord name (first :: rest) version db.config.nodeId))
        (db.node.commit db.config
          (msetRecord name (first :: rest) version db.config.nodeId)) := by
  have changes : (msetRecord name (first :: rest) version db.config.nodeId).changes =
      msetChanges name version db.config.nodeId (pairsOf rest) :=
    changes_mset rfl command rfl
  refine acts_issue versionEq rfl ?_ rfl ?_ ?_ ?_
  · rw [changes]
    exact acts_writePairs_withClock wellFormed awake _ _ _
      fun pair member => (each pair member).1
  · simp [AofRecord.Sound, msetRecord, command]
  · rw [changes]
    intro change member
    rcases List.mem_map.mp member with ⟨pair, listed, rfl⟩
    exact each pair listed
  · rw [changes]
    intro place other member
    rcases List.mem_map.mp member with ⟨pair, listed, equal⟩
    cases equal

/-- An accepted `MSET` reads its keys and issues one record. -/
theorem handleMset_spec (wellFormed : db.WellFormed) (awake : db.Awake name) (now : Nat)
    {first : Bytes} {rest : List Bytes} (command : upper first = ascii "MSET")
    (shape : ¬ ((first :: rest).length < 3 ∨ (first :: rest).length % 2 = 0)) :
    ∃ version, now * 2 ^ 16 ≤ version ∧
      Serves Node.Local now db (db.handleMset now name (first :: rest)).1 ∧
      (db.handleMset now name (first :: rest)).1.node =
        (db.node.touchAll now ((pairsOf rest).map fun pair => (name, pair.1))).commit
          db.config (msetRecord name (first :: rest) version db.config.nodeId) := by
  rcases overwritten_spec wellFormed awake now 0 (pairsOf rest) with ⟨acts, _, each⟩
  unfold handleMset Keyspace.handleMset
  simp only [Keyspace.ofDb]
  rw [if_neg shape]
  dsimp only [List.tail_cons]
  generalize db.overwritten now name 0 (pairsOf rest) = looped at acts each
  rcases looped with ⟨after, bound⟩
  dsimp only at acts each ⊢
  rw [← acts.node] at each
  obtain ⟨issued, committed⟩ := acts_mset acts.wellFormed
    (acts.frame.awake awake) rest command rfl (by
      intro pair member
      refine ⟨?_, each pair member⟩
      intro held here
      have listed : (name, pair.1) ∈ (pairsOf rest).map fun pair => (name, pair.1) :=
        List.mem_map.mpr ⟨pair, member, rfl⟩
      rw [acts.node, Node.touchAll_held, if_pos listed] at here
      simpa using (Option.filter_eq_some_iff.mp here).2)
  rw [← acts.frame.config, ← acts.node]
  refine ⟨_, issued.current, ?_, committed.node⟩
  have touched : Serves Node.Local now db after := by
    apply acts.serves_quiet (Node.locals_touchAll _ _ _ _)
    rcases Node.touchAll_fields now db.node ((pairsOf rest).map fun pair => (name, pair.1)) with
      ⟨held, equal⟩
    rw [equal]
  exact touched.trans (committed.serves_commit (.issue _ issued) (acts.frame.awake awake))

theorem serves_handleMset (wellFormed : db.WellFormed) (awake : db.Awake name)
    {args : List Bytes} {first : Bytes} (head : args.head? = some first)
    (command : upper first = ascii "MSET") :
    Serves Node.Local now db (db.handleMset now name args).1 := by
  obtain ⟨rest, rfl⟩ : ∃ rest, args = first :: rest := List.head?_eq_some_iff.mp head
  by_cases shape : (first :: rest).length < 3 ∨ (first :: rest).length % 2 = 0
  · unfold handleMset Keyspace.handleMset
    simp only [Keyspace.ofDb]
    rw [if_pos shape]
    exact Serves.refl wellFormed
  · rcases handleMset_spec wellFormed awake now command shape with ⟨_, _, served, _⟩
    exact served

/-! ## Replicated writes and deletes -/

/-- What an admitted version says of the arguments and of the clock. -/
structure Admitted (db : Db) (now : Nat) (tsArg nodeArg : Bytes) (observed : Db)
    (version : Version) : Prop where
  ts : ∃ ts, parseU64 tsArg = some ts ∧ Hlc.normalize ts = version.ts
  node : parseU64 nodeArg = some version.node
  small : version.node ≤ uint32Max
  near : (Hlc.physicalMs version.ts : Int) ≤ now + db.config.maxClockOffsetMs
  observed : observed = { db with clock := max db.clock version.ts }

theorem incomingVersion_ok {tsArg nodeArg : Bytes} {observed : Db} {version : Version}
    (admitted : db.incomingVersion now tsArg nodeArg = .ok (observed, version)) :
    Admitted db now tsArg nodeArg observed version := by
  unfold incomingVersion at admitted
  split at admitted
  · rename_i ts node parsedTs parsedNode
    split at admitted
    · cases admitted
    · dsimp only at admitted
      split at admitted
      · cases admitted
      · cases admitted
        rename_i small near
        exact ⟨⟨ts, parsedTs, rfl⟩, parsedNode, Nat.le_of_not_lt small,
          Int.not_lt.mp near, rfl⟩
  · cases admitted

theorem acts_commit_observed {mid : Db} {record : AofRecord}
    (observed : record.timestampMs ≤ db.clock)
    (acts : Acts db mid (db.node.applyAll db.config record.changes)) :
    Acts db (mid.append record) (db.node.commit db.config record) := by
  apply acts_commit
  rw [max_eq_left observed]
  exact acts

/-- The record a merge logs, given the record it overwrites. -/
def mergeRecord (name : Bytes) (args : List Bytes) (expireAt : Option Int)
    (version : Version) (old : Option Record) : AofRecord :=
  { room := name, args
    expireAt := expireAt.getD ((old.map Record.expireAt).getD 0)
    timestampMs := version.ts
    nodeId := version.node }

/-- A merge whose version has been observed is offered to the node. -/
theorem mergeInto_spec (wellFormed : db.WellFormed) (awake : db.Awake name)
    (key value : Bytes) (args : List Bytes) (expireAt : Option Int) (version : Version)
    (observed : version.ts ≤ db.clock) {record : AofRecord}
    (recordEq : record = mergeRecord name args expireAt version
      ((db.node.touch now (name, key)).held (name, key)))
    (changes : record.changes = [record.put key value]) :
    Acts db (db.mergeInto now name key value args expireAt version).1
        (db.node.offer db.config now record (record.put key value)) ∧
      (db.mergeInto now name key value args expireAt version).2 =
        if (db.node.touch now (name, key)).stale (name, key) version then ignoredStale
        else ascii "+OK (State Converged)\r\n" := by
  rcases lookup_spec wellFormed awake now key with ⟨acts, result, found⟩
  have read := read_lookup wellFormed awake now key
  have clockEq : (db.lookup now name key).1.clock = db.clock :=
    congrArg Node.clock acts.node
  rw [← result] at recordEq
  unfold mergeInto Keyspace.mergeInto
  simp only [Keyspace.ofDb]
  generalize db.lookup now name key = looked at acts result found read recordEq clockEq
  rcases looked with ⟨after, old⟩
  dsimp only at acts result found read recordEq clockEq ⊢
  have place : (record.put key value).place = (name, key) := by
    rw [recordEq]
    rfl
  have versionEq : (record.put key value).version = version := by
    rw [recordEq]
    rfl
  have touched : after.node = db.node.touch now (record.put key value).place := by
    rw [place]
    exact acts.node
  rw [Node.offer_of_observed (by rw [versionEq]; exact observed) touched, place, versionEq,
    node_stale name key version old read.held, ← acts.node]
  by_cases stale : after.node.stale (name, key) version = true
  · rw [if_pos stale, if_pos stale, if_pos stale]
    exact ⟨⟨rfl, acts.wellFormed, acts.frame⟩, rfl⟩
  · rw [if_neg stale, if_neg stale, if_neg stale]
    refine ⟨acts.trans ?_, rfl⟩
    rw [← read.config]
    have logged : record =
        { room := name, args
          expireAt := expireAt.getD (after.recordFor name key old).2.expireAt
          timestampMs := version.ts
          nodeId := version.node } := by
      rw [recordEq]
      cases old <;> rfl
    rw [← logged]
    apply acts_commit_observed
    · rw [recordEq, clockEq]
      exact observed
    · rw [changes]
      have stored := acts_store acts.wellFormed read.awake read.found read.held
        { value
          expireAt := expireAt.getD (after.recordFor name key old).2.expireAt
          timestampMs := version.ts
          nodeId := version.node }
      rw [logged]
      exact stored

theorem changes_merge {record : AofRecord} {first key value tsArg nodeArg : Bytes}
    {more : List Bytes} (args : record.args = first :: key :: value :: tsArg :: nodeArg :: more)
    (command : upper first = ascii "CRDTMERGE") :
    record.changes = [record.put key value] := by
  simp [AofRecord.changes, args, command]

/-- A replicated command that was admitted: its record is offered to the node,
and the reply is positive. -/
structure Offered (now : Nat) (db : Db) (name : Bytes) (args : List Bytes)
    (outcome : Db × Bytes) (record : AofRecord) (change : Change) : Prop where
  room : record.room = name
  args : record.args = args
  sound : record.Sound
  single : record.changes = [change]
  near : (Hlc.physicalMs record.timestampMs : Int) ≤ now + db.config.maxClockOffsetMs
  acts : Acts db outcome.1 (db.node.offer db.config now record change)
  accepted : outcome.2.head? = some 43

theorem Offered.serves {args : List Bytes} {outcome : Db × Bytes} {record : AofRecord}
    {change : Change} (offered : Offered now db name args outcome record change)
    (awake : db.Awake name) : Serves Node.Step now db outcome.1 := by
  apply offered.acts.serves (Node.steps_offer offered.sound offered.single)
  intro other member
  rcases Node.mem_log_offer member with earlier | rfl
  · exact .inl earlier
  · rw [offered.room]
    exact .inr awake

/-- The version in the arguments of a replicated command. -/
structure Stamped (record : AofRecord) (tsArg nodeArg : Bytes) : Prop where
  ts : ∃ ts, parseU64 tsArg = some ts ∧ Hlc.normalize ts = record.timestampMs
  node : parseU64 nodeArg = some record.nodeId
  small : record.nodeId ≤ uint32Max

theorem offer_observe (config : Config) (now : Nat) (node : Node) (record : AofRecord)
    (change : Change) :
    (node.observe change.version.ts).offer config now record change =
      node.offer config now record change := by
  have twice : (node.observe change.version.ts).observe change.version.ts =
      node.observe change.version.ts := by
    simp only [Node.observe, max_assoc, max_self]
  unfold Node.offer
  rw [twice]

/-- An admitted command is answered positively, also when it is stale. -/
theorem head_accepted {reply done : Bytes} {losing : Bool} (positive : done.head? = some 43)
    (equal : reply = if losing then ignoredStale else done) : reply.head? = some 43 := by
  rw [equal]
  by_cases same : losing = true
  · rw [if_pos same]
    simp [ignoredStale, ascii]
  · rw [if_neg same]
    exact positive

/-- A merge with an admitted version. -/
theorem offered_merge (wellFormed : db.WellFormed) (awake : db.Awake name)
    {first key value tsArg nodeArg : Bytes} {more : List Bytes}
    (command : upper first = ascii "CRDTMERGE") {observed : Db} {version : Version}
    (admitted : Admitted db now tsArg nodeArg observed version) (expireAt : Option Int) :
    ∃ record, Offered now db name (first :: key :: value :: tsArg :: nodeArg :: more)
        (observed.mergeInto now name key value
          (first :: key :: value :: tsArg :: nodeArg :: more) expireAt version)
        record (record.put key value) ∧
      Stamped record tsArg nodeArg ∧
      record.expireAt = expireAt.getD
        ((((db.node.touch now (name, key)).held (name, key)).map Record.expireAt).getD 0) := by
  rcases admitted with ⟨⟨ts, parsedTs, normalized⟩, parsedNode, small, near, rfl⟩
  generalize recordEq : mergeRecord name
    (first :: key :: value :: tsArg :: nodeArg :: more) expireAt version
    ((db.node.touch now (name, key)).held (name, key)) = record
  have changes : record.changes = [record.put key value] := by
    rw [← recordEq]
    exact changes_merge rfl command
  have timestamp : record.timestampMs = version.ts := by
    rw [← recordEq]
    rfl
  have stamped : Stamped record tsArg nodeArg := by
    rw [← recordEq]
    exact ⟨⟨ts, parsedTs, normalized⟩, parsedNode, small⟩
  have sound : record.Sound := by
    rw [AofRecord.Sound, ← recordEq]
    exact .inr (.inr (.inr (.inr ⟨command, by simp, ts, parsedTs, normalized, parsedNode,
      small⟩)))
  rcases mergeInto_spec (wellFormed.withClock (max db.clock version.ts))
    (awake.withClock _) key value _ expireAt version (le_max_right db.clock version.ts)
    recordEq.symm changes with ⟨acts, accepted⟩
  refine ⟨record, ⟨?_, ?_, sound, changes, ?_, ?_, head_accepted (by simp [ascii]) accepted⟩,
    stamped, ?_⟩
  · rw [← recordEq]
    rfl
  · rw [← recordEq]
    rfl
  · rw [timestamp]
    exact near
  · have offered := offer_observe db.config now db.node record (record.put key value)
    have versionEq : (record.put key value).version.ts = version.ts := timestamp
    rw [versionEq] at offered
    rw [← offered]
    exact ⟨acts.node, acts.wellFormed, (frame_clock _).trans acts.frame⟩
  · rw [← recordEq]
    rfl

/-- The deadline a merge gives to its key: the one in its arguments, else the
one that the key already has. -/
def Deadline (db : Db) (now : Nat) (name key : Bytes) (more : List Bytes)
    (expireAt : Int) : Prop :=
  match more with
  | [] => expireAt =
      (((db.node.touch now (name, key)).held (name, key)).map Record.expireAt).getD 0
  | [expireArg] => parseI64 expireArg = some expireAt ∧ 0 ≤ expireAt
  | _ => False

/-- The error replies of the replicated commands leave the state alone. -/
def Refused (db : Db) (outcome : Db × Bytes) : Prop :=
  outcome.1 = db ∧ outcome.2.head? = some 45

theorem refused_incomingVersion {tsArg nodeArg err : Bytes}
    (refused : db.incomingVersion now tsArg nodeArg = .error err) :
    err.head? = some 45 := by
  unfold incomingVersion at refused
  split at refused
  · split at refused
    · rw [← Except.error.inj refused]
      simp [ascii]
    · dsimp only at refused
      split at refused
      · rw [← Except.error.inj refused]
        simp [ascii]
      · cases refused
  · rw [← Except.error.inj refused]
    simp [ascii]

theorem handleCrdtmerge_cases (wellFormed : db.WellFormed) (awake : db.Awake name)
    {args : List Bytes} {first : Bytes} (head : args.head? = some first)
    (command : upper first = ascii "CRDTMERGE") :
    Refused db (db.handleCrdtmerge now name args) ∨
      ∃ key value tsArg nodeArg more record,
        args = first :: key :: value :: tsArg :: nodeArg :: more ∧
        Offered now db name args (db.handleCrdtmerge now name args) record
          (record.put key value) ∧
        Stamped record tsArg nodeArg ∧ Deadline db now name key more record.expireAt := by
  unfold handleCrdtmerge Keyspace.handleCrdtmerge
  simp only [Keyspace.ofDb]
  match args with
  | [_, key, value, tsArg, nodeArg] =>
      dsimp only
      obtain rfl : _ = first := by simpa using head
      rcases refused : db.incomingVersion now tsArg nodeArg with err | ⟨observed, version⟩
      · exact .inl ⟨rfl, refused_incomingVersion refused⟩
      · rcases offered_merge wellFormed awake command (incomingVersion_ok refused) none with
          ⟨record, offered, stamped, inherited⟩
        exact .inr ⟨key, value, tsArg, nodeArg, [], record, rfl, offered, stamped, inherited⟩
  | [_, key, value, tsArg, nodeArg, expireArg] =>
      dsimp only
      obtain rfl : _ = first := by simpa using head
      cases parsed : parseI64 expireArg with
      | none => exact .inl ⟨rfl, by simp [ascii]⟩
      | some expireAt =>
          dsimp only
          by_cases negative : expireAt < 0
          · rw [if_pos negative]
            exact .inl ⟨rfl, by simp [ascii]⟩
          · rw [if_neg negative]
            rcases refused : db.incomingVersion now tsArg nodeArg with err | ⟨observed, version⟩
            · exact .inl ⟨rfl, refused_incomingVersion refused⟩
            · rcases offered_merge wellFormed awake
                command (incomingVersion_ok refused) (some expireAt) with
                ⟨record, offered, stamped, given⟩
              refine .inr ⟨key, value, tsArg, nodeArg, [expireArg], record, rfl, offered,
                stamped, ?_⟩
              rw [given]
              exact ⟨parsed, Int.not_lt.mp negative⟩
  | [] | [_] | [_, _] | [_, _, _] | [_, _, _, _] | _ :: _ :: _ :: _ :: _ :: _ :: _ :: _ =>
      exact .inl ⟨rfl, by simp [ascii]⟩

theorem serves_handleCrdtmerge (wellFormed : db.WellFormed) (awake : db.Awake name)
    {args : List Bytes} {first : Bytes} (head : args.head? = some first)
    (command : upper first = ascii "CRDTMERGE") :
    Serves Node.Step now db (db.handleCrdtmerge now name args).1 := by
  rcases handleCrdtmerge_cases wellFormed awake head command with
    ⟨same, _⟩ | ⟨_, _, _, _, _, _, _, offered, _⟩
  · rw [same]
    exact Serves.refl wellFormed
  · exact offered.serves awake

theorem changes_crdtdel {record : AofRecord} {first key tsArg nodeArg : Bytes}
    (args : record.args = [first, key, tsArg, nodeArg])
    (command : upper first = ascii "CRDTDEL") :
    record.changes = [.del (record.room, key) record.version] := by
  have others : ascii "CRDTDEL" ≠ ascii "CRDTMERGE" ∧ ascii "CRDTDEL" ≠ ascii "SET" ∧
      ascii "CRDTDEL" ≠ ascii "MSET" := by decide
  simp [AofRecord.changes, args, command, others]

/-- The delete of a key just read, whose version has been observed. -/
theorem acts_delete_observed {after : Db} {key : Bytes} {old : Option Record}
    (read : Read now db after name key old) {record : AofRecord} {version : Version}
    (changes : record.changes = [.del (name, key) version])
    (observed : record.timestampMs ≤ after.clock) :
    Acts after (((if old.isSome then after.erase name key else after).setTomb name key
        version).append record) (after.node.commit after.config record) := by
  have erased : Acts after (if old.isSome then after.erase name key else after)
      (after.node.hold (name, key) none) := by
    cases old with
    | some _ => exact acts_erase read.served.wellFormed read.awake read.found.cold
    | none =>
        have same := Node.hold_self after.node (name, key)
        rw [read.held] at same
        rw [same]
        exact Acts.refl read.served.wellFormed
  have marked := acts_setTomb erased.wellFormed name key version
  rw [erased.node, erased.frame.config] at marked
  apply acts_commit_observed observed
  rw [changes]
  exact erased.trans marked

/-- The record a replicated delete logs. -/
def deleteRecord (name : Bytes) (args : List Bytes) (version : Version) : AofRecord :=
  { room := name, args, timestampMs := version.ts, nodeId := version.node }

/-- A delete whose version has been observed is offered to the node. -/
theorem deleteFrom_spec (wellFormed : db.WellFormed) (awake : db.Awake name)
    (key : Bytes) (args : List Bytes) (version : Version)
    (observed : version.ts ≤ db.clock)
    (changes : (deleteRecord name args version).changes = [.del (name, key) version]) :
    Acts db (db.deleteFrom now name key args version).1
        (db.node.offer db.config now (deleteRecord name args version)
          (.del (name, key) version)) ∧
      (db.deleteFrom now name key args version).2 =
        if (db.node.touch now (name, key)).stale (name, key) version then ignoredStale
        else ascii "+OK (Deleted)\r\n" := by
  rcases lookup_spec wellFormed awake now key with ⟨acts, result, found⟩
  have read := read_lookup wellFormed awake now key
  have clockEq : (db.lookup now name key).1.clock = db.clock :=
    congrArg Node.clock acts.node
  have touched : (db.lookup now name key).1.node =
      db.node.touch now (Change.del (name, key) version).place := acts.node
  have early : (Change.del (name, key) version).version.ts ≤ db.node.clock := observed
  have offered : db.node.offer db.config now (deleteRecord name args version)
      (.del (name, key) version) =
      if (db.lookup now name key).1.node.stale (name, key) version then
        (db.lookup now name key).1.node
      else (db.lookup now name key).1.node.commit db.config
        (deleteRecord name args version) := Node.offer_of_observed early touched
  rw [offered]
  unfold deleteFrom Keyspace.deleteFrom
  simp only [Keyspace.ofDb]
  generalize db.lookup now name key = looked at acts read clockEq
  rcases looked with ⟨after, old⟩
  dsimp only at acts read clockEq ⊢
  rw [node_stale name key version old read.held, ← acts.node]
  by_cases stale : after.node.stale (name, key) version = true
  · rw [if_pos stale, if_pos stale, if_pos stale]
    exact ⟨⟨rfl, acts.wellFormed, acts.frame⟩, rfl⟩
  · rw [if_neg stale, if_neg stale, if_neg stale]
    refine ⟨acts.trans ?_, rfl⟩
    rw [← read.config]
    exact acts_delete_observed read changes (observed.trans_eq clockEq.symm)

theorem handleCrdtdel_cases (wellFormed : db.WellFormed) (awake : db.Awake name)
    {args : List Bytes} {first : Bytes} (head : args.head? = some first)
    (command : upper first = ascii "CRDTDEL") :
    Refused db (db.handleCrdtdel now name args) ∨
      ∃ key tsArg nodeArg record, args = [first, key, tsArg, nodeArg] ∧
        Offered now db name args (db.handleCrdtdel now name args) record
          (.del (name, key) record.version) ∧
        Stamped record tsArg nodeArg ∧ record.expireAt = 0 := by
  unfold handleCrdtdel Keyspace.handleCrdtdel
  simp only [Keyspace.ofDb]
  match args with
  | [named, key, tsArg, nodeArg] =>
      dsimp only
      obtain rfl : named = first := by simpa using head
      rcases refused : db.incomingVersion now tsArg nodeArg with err | ⟨observed, version⟩
      · exact .inl ⟨rfl, refused_incomingVersion refused⟩
      · rcases incomingVersion_ok refused with
          ⟨⟨ts, parsedTs, normalized⟩, parsedNode, small, near, rfl⟩
        have changes : (deleteRecord name [named, key, tsArg, nodeArg] version).changes =
            [.del (name, key) version] := changes_crdtdel rfl command
        rcases deleteFrom_spec
          (wellFormed.withClock (max db.clock version.ts)) (awake.withClock _) key _ version
          (le_max_right db.clock version.ts) changes with ⟨acts, accepted⟩
        refine .inr ⟨key, tsArg, nodeArg, deleteRecord name [named, key, tsArg, nodeArg] version, rfl,
          ⟨rfl, rfl, ?_, changes, near, ?_, head_accepted (by simp [ascii]) accepted⟩,
          ⟨⟨ts, parsedTs, normalized⟩, parsedNode, small⟩, rfl⟩
        · exact .inr (.inr (.inr (.inl ⟨command, by simp⟩)))
        · have offered := offer_observe db.config now db.node
            (deleteRecord name [named, key, tsArg, nodeArg] version)
            (.del (name, key) version)
          exact ⟨acts.node.trans offered, acts.wellFormed,
            (frame_clock _).trans acts.frame⟩
  | [] | [_] | [_, _] | [_, _, _] | _ :: _ :: _ :: _ :: _ :: _ => exact .inl ⟨rfl, by simp [ascii]⟩

theorem serves_handleCrdtdel (wellFormed : db.WellFormed) (awake : db.Awake name)
    {args : List Bytes} {first : Bytes} (head : args.head? = some first)
    (command : upper first = ascii "CRDTDEL") :
    Serves Node.Step now db (db.handleCrdtdel now name args).1 := by
  rcases handleCrdtdel_cases wellFormed awake head command with
    ⟨same, _⟩ | ⟨_, _, _, _, _, offered, _⟩
  · rw [same]
    exact Serves.refl wellFormed
  · exact offered.serves awake

end Handlers

end Db

end SomniumDB
