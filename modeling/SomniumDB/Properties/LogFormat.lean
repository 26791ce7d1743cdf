import SomniumDB.Abstract.Dump
import SomniumDB.Abstract.Events
import SomniumDB.Abstract.Logged

/-! # The log is readable

Every record that a command of a client appends is read back by the parser of
the log, except that of an `MSET` so long that the five tokens which the log
adds exceed the limit on the number of arguments. -/

namespace SomniumDB

open Bytes FsUtil Resp LastUpdate

theorem Record.Small.normalized {record : Record} (small : record.Small) :
    record.normalized.Small := small

/-- A record of the log that only writes small records. -/
def AofRecord.Moderate (record : AofRecord) : Prop :=
  ∀ place held, .put place held ∈ record.changes → held.Small

theorem mem_of_mem_pairsOf {args : List Bytes} {pair : Bytes × Bytes}
    (member : pair ∈ Db.pairsOf args) : pair.2 ∈ args := by
  fun_induction Db.pairsOf args with
  | case1 key value rest induction =>
      rcases List.mem_cons.mp member with rfl | later
      · simp
      · simp [induction later]
  | case2 => cases member

/-- A value written by a record stands among its arguments, and its deadline is
that of the record. -/
theorem put_of_mem_changes {record : AofRecord} {place : Place} {held : Record}
    (member : .put place held ∈ record.changes) :
    held.expireAt = record.expireAt ∧ (held.value ∈ record.args ∨ held.value = []) := by
  have argument : ∀ (rest : List Bytes) (index : Nat),
      rest[index]?.getD [] ∈ rest ∨ rest[index]?.getD [] = [] := by
    intro rest index
    cases found : rest[index]? with
    | none => exact .inr rfl
    | some value => exact .inl (List.mem_of_getElem? found)
  unfold AofRecord.changes at member
  split at member
  · cases member
  · rename_i name rest args
    dsimp only at member
    rw [args]
    by_cases merges : name.upper = ascii "CRDTMERGE" ∧ 4 ≤ rest.length ∨ name.upper = ascii "SET" ∧
        2 ≤ rest.length
    · rw [if_pos merges] at member
      cases List.mem_singleton.mp member
      exact ⟨rfl, (argument rest 1).imp (List.mem_cons_of_mem _) id⟩
    · rw [if_neg merges] at member
      by_cases isMset : name.upper = ascii "MSET"
      · rw [if_pos isMset] at member
        rcases List.mem_map.mp member with ⟨pair, listed, equal⟩
        cases equal
        exact ⟨rfl, .inl (List.mem_cons_of_mem _ (mem_of_mem_pairsOf listed))⟩
      · rw [if_neg isMset] at member
        by_cases deletes : name.upper = ascii "DEL" ∧ 1 ≤ rest.length ∨
            name.upper = ascii "CRDTDEL" ∧ 3 ≤ rest.length
        · rw [if_pos deletes] at member
          cases List.mem_singleton.mp member
        · rw [if_neg deletes] at member
          cases member

theorem Logged.moderate {name : Bytes} {args : List Bytes} {record : AofRecord}
    (logged : Logged name args record) : record.Moderate := by
  intro place held member
  rcases put_of_mem_changes member with ⟨deadline, value⟩
  refine ⟨?_, deadline ▸ logged.deadline⟩
  rcases value with listed | empty
  · exact logged.strings _ listed
  · rw [empty]
    exact Nat.zero_le _

/-- Steps that log moderate records keep every record held small. -/
theorem Node.small_steps {config : Config} {now : Nat} {node after : Node}
    (steps : Node.Steps config now node after)
    (small : ∀ place held, node.held place = some held → held.Small)
    (log : ∀ record ∈ after.log, record.Moderate) :
    ∀ place held, after.held place = some held → held.Small := by
  induction steps with
  | refl => exact small
  | tail _ step induction =>
      rcases Node.step_log step with ⟨new, grown, _⟩
      have earlier := induction fun record member =>
        log record (grown ▸ List.mem_append_left new member)
      intro place held found
      rcases Node.step_held step found with ⟨before, here, rfl | rfl⟩ | ⟨record, member, put⟩
      · exact earlier place held here
      · exact (earlier place before here).normalized
      · exact log record member place held put

namespace Db

/-- The records of a rewrite in progress. -/
structure ChildModerate (child : RewriteChild) : Prop where
  todo : ∀ name room, (name, room) ∈ child.todo → ∀ key record,
    room.keys.lookup key = some record → record.Small
  cold : ∀ name key record, child.cold.find name key = some record → record.Small
  written : ∀ record ∈ child.written, record.Moderate

/-- Everything a node stores is within the limits of the parser. -/
structure Moderate (db : Db) : Prop where
  held : db.HoldsSmall
  snapshots : ∀ name file, db.snapshots.lookup name = some file → ∀ key record,
    file.lookup key = some record → record.Small
  log : ∀ record ∈ db.aof, record.Moderate
  child : ∀ child, db.rewriteChild = some child → ChildModerate child

variable {config : Config} {db after : Db} {now : Nat} {name : Bytes}

theorem Moderate.kept (moderate : db.Moderate) (kept : Kept now db after)
    (log : ∀ record ∈ after.aof, record.Moderate) : after.Moderate where
  held := Node.small_steps kept.steps moderate.held log
  snapshots := by
    rw [kept.snapshots]
    exact moderate.snapshots
  log := log
  child := by
    rw [kept.rewriteChild]
    exact moderate.child

/-- A room asleep has no record in RAM. -/
theorem held_of_room {key : Bytes} {record : Record} (wellFormed : db.WellFormed)
    (found : (db.keysOf name).lookup key = some record) :
    db.held (name, key) = some record := by
  cases state : (db.room name).state with
  | active => exact held_of_keysOf state found
  | sleeping =>
      rw [wellFormed.asleep name state] at found
      cases found

theorem Moderate.hibernated (moderate : db.Moderate) (hibernated : Hibernated db after name)
    (log : ∀ record ∈ after.aof, record.Moderate) : after.Moderate where
  held := Node.small_steps (hibernated.steps 0) moderate.held log
  snapshots := by
    rw [hibernated.snapshots]
    intro other file found key record here
    rw [FiniteMap.lookup_insert_if] at found
    by_cases same : other = name
    · rw [if_pos same] at found
      cases found
      exact moderate.held (name, key) record (held_of_keysOf hibernated.awake here)
    · rw [if_neg same] at found
      exact moderate.snapshots other file found key record here
  log := log
  child := by
    rw [hibernated.rewriteChild]
    exact moderate.child

theorem Moderate.forked (moderate : db.Moderate) (wellFormed : db.WellFormed)
    (forked : Forked db after) : after.Moderate where
  held := by
    intro place record found
    have same := congrArg (fun node => node.held place) forked.node
    exact moderate.held place record (same.symm.trans found)
  snapshots := by
    rw [forked.snapshots]
    intro other file found key record here
    unfold discardActiveSnapshots at found
    rw [FiniteMap.lookup_filter] at found
    exact moderate.snapshots other file (Option.filter_eq_some_iff.mp found).1 key record here
  log := by
    have same : after.aof = db.aof := congrArg Node.log forked.node
    rw [same]
    exact moderate.log
  child := by
    rw [forked.rewriteChild]
    intro child equal
    cases equal
    refine ⟨?_, ?_, by simp⟩
    · intro other room listed key record found
      have registered := (FiniteMap.mem_toPairs _ _ _).mp listed
      have same : db.keysOf other = room.keys := by
        rw [keysOf, Db.room, registered]
        rfl
      rw [← same] at found
      exact moderate.held (other, key) record (held_of_room wellFormed found)
    · intro other key record found
      exact moderate.held (other, key) record (held_of_cold wellFormed found)

/-! ## The records of a rewrite -/

theorem moderate_emit {start : Nat} {key : Bytes} {held : Record} {record : AofRecord}
    (small : held.Small) (member : record ∈ emit start name key held) : record.Moderate := by
  have spelled : upper (ascii "SET") = ascii "SET" := by decide
  unfold emit at member
  by_cases expired : held.expired start = true
  · rw [if_pos expired] at member
    cases member
  · rw [if_neg expired] at member
    rw [List.mem_singleton.mp member]
    intro place content put
    rw [changes_set rfl spelled] at put
    cases List.mem_singleton.mp put
    exact small

theorem moderate_emitKeys {start : Nat} {keys : FiniteMap Bytes Record} {record : AofRecord}
    (small : ∀ key held, keys.lookup key = some held → held.Small)
    (member : record ∈ emitKeys start name keys) : record.Moderate := by
  rcases List.mem_flatMap.mp member with ⟨⟨key, held⟩, listed, emitted⟩
  exact moderate_emit (small key held ((FiniteMap.mem_toPairs _ _ _).mp listed)) emitted

theorem moderate_emitCold {start : Nat} {cold : NestedMap Bytes Bytes Record}
    {record : AofRecord}
    (small : ∀ name key held, cold.find name key = some held → held.Small)
    (member : record ∈ emitCold start cold) : record.Moderate := by
  rcases List.mem_flatMap.mp member with ⟨⟨name, key, held⟩, listed, emitted⟩
  exact moderate_emit (small name key held ((NestedMap.mem_toTriples _ _ _ _).mp listed)) emitted

theorem moderate_emitTombstones {tombstones : NestedMap Bytes Bytes Version}
    {record : AofRecord} (member : record ∈ emitTombstones tombstones) : record.Moderate := by
  rcases List.mem_map.mp member with ⟨⟨name, key, version⟩, _, rfl⟩
  intro place held put
  rw [changes_del rfl] at put
  cases List.mem_singleton.mp put

theorem small_mapValues {file : FiniteMap Bytes Record}
    (small : ∀ key held, file.lookup key = some held → held.Small) :
    ∀ key held, (file.mapValues Record.normalized).lookup key = some held → held.Small := by
  intro key held found
  rw [FiniteMap.lookup_mapValues] at found
  rcases Option.map_eq_some_iff.mp found with ⟨before, here, rfl⟩
  exact (small key before here).normalized

/-- Losing a snapshot file adds no record. -/
theorem held_of_lost {snapshots : FiniteMap Bytes (FiniteMap Bytes Record)}
    {child : Option RewriteChild} (wellFormed : db.WellFormed)
    (files : ∀ name, snapshots.lookup name = db.snapshots.lookup name ∨
      snapshots.lookup name = none) {place : Place} {record : Record}
    (found : { db with snapshots, rewriteChild := child }.held place = some record) :
    db.held place = some record := by
  rcases files place.1 with same | gone
  · rw [held, resident_eq] at found ⊢
    rw [← same]
    exact found
  · cases state : (db.room place.1).state with
    | active =>
        rw [held, resident_eq] at found ⊢
        simp only [residentOf, state]
        change ((residentOf (db.room place.1) (snapshots.lookup place.1)).lookup place.2).or
          (db.cold.find place.1 place.2) = _ at found
        simp only [residentOf, state] at found
        exact found
    | sleeping =>
        rw [held, resident_eq] at found
        change ((residentOf (db.room place.1) (snapshots.lookup place.1)).lookup place.2).or
          (db.cold.find place.1 place.2) = _ at found
        rw [gone, residentOf, state] at found
        exact held_of_cold wellFormed found

/-- The child writes its own records, or loses a file. -/
theorem Moderate.withChild (moderate : db.Moderate) (wellFormed : db.WellFormed)
    {child : RewriteChild} {snapshots : FiniteMap Bytes (FiniteMap Bytes Record)}
    (files : ∀ name, snapshots.lookup name = db.snapshots.lookup name ∨
      snapshots.lookup name = none) (inChild : ChildModerate child) :
    Moderate { db with snapshots, rewriteChild := some child } := by
  refine ⟨?_, ?_, moderate.log, ?_⟩
  · intro place record found
    exact moderate.held place record (held_of_lost wellFormed files found)
  · intro name file found key record here
    rcases files name with same | gone
    · exact moderate.snapshots name file (same ▸ found) key record here
    · exact absurd (gone.symm.trans found) (by simp)
  · intro other equal
    cases equal
    exact inChild

theorem ChildModerate.wrote {child : RewriteChild} (inChild : ChildModerate child)
    {records : List AofRecord} (moderate : ∀ record ∈ records, record.Moderate) :
    ∀ record ∈ child.written ++ records, record.Moderate := by
  intro record member
  rcases List.mem_append.mp member with earlier | new
  · exact inChild.written record earlier
  · exact moderate record new

theorem Moderate.childRead (moderate : db.Moderate) (wellFormed : db.WellFormed)
    {child : RewriteChild} (inChild : ChildModerate child) (start size : Nat)
    {room : Room} {rest : List (Bytes × Room)} (todo : child.todo = (name, room) :: rest) :
    Moderate (db.childReadSnapshot child start size name rest) := by
  unfold childReadSnapshot
  cases found : db.snapshots.lookup name with
  | none =>
      exact moderate.withChild wellFormed (fun _ => .inl rfl)
        ⟨inChild.todo, inChild.cold, inChild.written⟩
  | some file =>
      dsimp only
      by_cases unchanged : snapshotSize file = size
      · rw [if_pos unchanged]
        refine moderate.withChild wellFormed (fun _ => .inl rfl) ⟨?_, inChild.cold, ?_⟩
        · intro other content listed
          exact inChild.todo other content (todo ▸ List.mem_cons_of_mem _ listed)
        · exact inChild.wrote fun record => moderate_emitKeys
            (small_mapValues (moderate.snapshots name file found))
      · rw [if_neg unchanged]
        refine moderate.withChild wellFormed ?_ ⟨inChild.todo, inChild.cold, inChild.written⟩
        intro other
        by_cases grown : size < snapshotSize file
        · rw [if_pos grown]
          rw [FiniteMap.lookup_erase_if]
          by_cases same : other = name
          · rw [if_pos same]
            exact .inr rfl
          · rw [if_neg same]
            exact .inl rfl
        · rw [if_neg grown]
          exact .inl rfl

theorem Moderate.childStepped (moderate : db.Moderate) (wellFormed : db.WellFormed)
    (now : Nat) : Moderate (db.childStep now) := by
  unfold childStep
  cases running : db.rewriteChild with
  | none => exact moderate
  | some child =>
      dsimp only
      have inChild := moderate.child child running
      by_cases finished : child.finished = true
      · rw [if_pos finished]
        exact moderate
      · rw [if_neg finished]
        cases child.now with
        | none =>
            exact moderate.withChild wellFormed (fun _ => .inl rfl)
              ⟨inChild.todo, inChild.cold, inChild.written⟩
        | some start =>
            dsimp only
            split
            · refine moderate.withChild wellFormed (fun _ => .inl rfl)
                ⟨inChild.todo, inChild.cold, ?_⟩
              intro record member
              rcases List.mem_append.mp member with front | tombs
              · exact inChild.wrote (fun record => moderate_emitCold inChild.cold) record front
              · exact moderate_emitTombstones tombs
            · rename_i name room rest todo
              by_cases awake : room.state = .active
              · rw [if_pos awake]
                refine moderate.withChild wellFormed (fun _ => .inl rfl) ⟨?_, inChild.cold, ?_⟩
                · intro other content listed
                  exact inChild.todo other content (todo ▸ List.mem_cons_of_mem _ listed)
                · exact inChild.wrote fun record => moderate_emitKeys
                    (inChild.todo name room (todo ▸ List.mem_cons_self))
              · rw [if_neg awake]
                cases child.statSize with
                | none =>
                    cases db.snapshots.lookup name with
                    | none =>
                        refine moderate.withChild wellFormed (fun _ => .inl rfl)
                          ⟨?_, inChild.cold, inChild.written⟩
                        intro other content listed
                        exact inChild.todo other content (todo ▸ List.mem_cons_of_mem _ listed)
                    | some _ =>
                        exact moderate.withChild wellFormed (fun _ => .inl rfl)
                          ⟨inChild.todo, inChild.cold, inChild.written⟩
                | some _ => exact moderate.childRead wellFormed inChild _ _ todo

theorem Moderate.childFailed (moderate : db.Moderate) : Moderate db.childFail := by
  refine ⟨moderate.held, moderate.snapshots, moderate.log, ?_⟩
  intro child equal
  rcases Option.map_eq_some_iff.mp equal with ⟨before, running, rfl⟩
  rcases moderate.child before running with ⟨todo, cold, written⟩
  exact ⟨todo, cold, written⟩

theorem Moderate.finished (moderate : db.Moderate) : Moderate db.finishBackgroundRewrite := by
  rcases finishBackgroundRewrite_cases db with same | ⟨child, running, _, ⟨_, dropped⟩ |
    ⟨_, committed⟩⟩
  · rw [same]
    exact moderate
  · rw [dropped]
    exact ⟨moderate.held, moderate.snapshots, moderate.log, by simp⟩
  · rw [committed]
    refine ⟨moderate.held, moderate.snapshots, ?_, by simp⟩
    intro record member
    rcases List.mem_append.mp member with written | tail
    · exact (moderate.child child running).written record written
    · exact moderate.log record (List.mem_of_mem_drop tail)

/-! ## Commands and runs -/

theorem Moderate.begun (moderate : db.Moderate) (sane : Sane config db) (call : Call) :
    Moderate (db.beginCommand call) := by
  have finished := moderate.finished
  rcases beginCommand_cases db call with same | ⟨idle, forked⟩
  · rw [same]
    exact finished
  · rw [forked]
    exact finished.forked sane.finished.wellFormed
      (forked_startBackgroundRewrite sane.finished.wellFormed idle)

theorem Moderate.dispatched {call : Call} (moderate : db.Moderate)
    (dispatched : Dispatched db call after)
    (log : ∀ record ∈ after.aof, record.Moderate) : after.Moderate := by
  cases dispatched with
  | kept kept => exact moderate.kept kept log
  | @slept known _ name kept hibernated =>
      rcases Node.steps_log (hibernated.steps 0) with ⟨new, grown, _⟩
      have before : ∀ record ∈ known.aof, record.Moderate := by
        intro record member
        apply log record
        change record ∈ after.node.log
        rw [grown]
        exact List.mem_append_left new member
      exact (moderate.kept kept before).hibernated hibernated log
  | @forked known kept idle =>
      have forked := forked_startBackgroundRewrite kept.wellFormed idle
      have same : known.startBackgroundRewrite.1.aof = known.aof :=
        congrArg Node.log forked.node
      rw [same] at log
      exact (moderate.kept kept log).forked kept.wellFormed forked

theorem Moderate.executed (moderate : db.Moderate) (sane : Sane config db) (call : Call)
    (within : Within call.args) (node : config.nodeId ≤ uint32Max) :
    Moderate (db.execute call).1 := by
  have begun := moderate.begun sane call
  have saneBegun := sane.begun call
  unfold execute
  cases args : call.args with
  | nil => exact moderate
  | cons first rest =>
      have head : call.args.head? = some first := by
        rw [args]
        rfl
      have confined : Confined (db.beginCommand call) call.args :=
        ⟨within, by rw [saneBegun.config]; exact node, begun.held⟩
      have logs := logs_dispatch saneBegun.wellFormed call confined head
      apply begun.dispatched (dispatched_dispatch saneBegun.wellFormed call head)
      intro record member
      rcases logs.mem member with earlier | logged
      · exact begun.log record earlier
      · exact logged.moderate

theorem moderate_recovered {aof : List AofRecord}
    {snapshots : FiniteMap Bytes (FiniteMap Bytes Record)}
    (recovered : Recovered config aof snapshots now db)
    (files : ∀ name file, snapshots.lookup name = some file → ∀ key record,
      file.lookup key = some record → record.Small)
    (log : ∀ record ∈ aof, record.Moderate) : db.Moderate := by
  rcases recovered with ⟨⟨fresh, _, _, equal⟩, _, _, _, sameSnapshots, idle, _⟩
  have sameLog : db.aof = aof := by
    have logs := congrArg Node.log equal
    exact logs.trans (Node.replayAll_log config (snapshotNode aof snapshots) (logReplayed aof))
  refine ⟨?_, sameSnapshots ▸ files, sameLog ▸ log, by simp [idle]⟩
  intro place record found
  have held := (congrArg (fun node => node.held place) equal).symm.trans found
  dsimp only at held
  rw [Node.replayAll_held] at held
  cases final : last Change.place (logReplayed aof) place with
  | none =>
      rw [final] at held
      rcases Option.map_eq_some_iff.mp held with ⟨before, here, rfl⟩
      rcases Option.bind_eq_some_iff.mp here with ⟨file, inFiles, inFile⟩
      exact (files place.1 file inFiles place.2 before inFile).normalized
  | some change =>
      rw [final, Option.map_some, Option.getD_some] at held
      rcases last_eq_some final with ⟨member, _⟩
      rcases mem_logReplayed.mp member with ⟨source, inLog, replayed⟩
      cases change with
      | del target version => cases held
      | put target content =>
          cases held
          unfold AofRecord.replayed at replayed
          by_cases same : Option.map upper source.args.head? = some (ascii "CRDTMERGE")
          · rw [if_pos same] at replayed
            exact log source inLog target record replayed
          · rw [if_neg same] at replayed
            rcases List.mem_map.mp replayed with ⟨original, inChanges, moved⟩
            cases original with
            | del other version => cases moved
            | put other before =>
                cases moved
                exact (log source inLog target before inChanges).normalized

end Db

/-- The arguments come from what a client has sent. -/
def Call.Requested (call : Call) : Prop :=
  ∃ buf pos stop, parseRequest buf pos = .complete stop call.args

/-- Every command of the run comes from a client. -/
def Requested (events : List Event) : Prop :=
  ∀ call, .command call ∈ events → call.Requested

namespace Db

variable {config : Config} {db : Db}

theorem Moderate.stepped (moderate : db.Moderate) (sane : Sane config db)
    (node : config.nodeId ≤ uint32Max) (event : Event)
    (requested : ∀ call, event = .command call → call.Requested) :
    Moderate (db.step event) := by
  cases event with
  | command call =>
      rcases requested call rfl with ⟨buf, pos, stop, parsed⟩
      exact moderate.executed sane call (parseRequest_within parsed) node
  | cleanup now clientFd =>
      exact ⟨moderate.held, moderate.snapshots, moderate.log, moderate.child⟩
  | cleanExpired now name =>
      refine moderate.kept (kept_cleanExpiredKeys sane.wellFormed now name) ?_
      change ∀ record ∈ (db.cleanExpiredKeys now name).aof, record.Moderate
      unfold cleanExpiredKeys
      by_cases unknown : name ∉ db.rooms
      · rw [if_pos unknown]
        exact moderate.log
      · rw [if_neg unknown]
        exact moderate.log
  | hibernateInactive now name =>
      change Moderate (db.hibernateInactive now name)
      rcases hibernateInactive_spec sane.wellFormed now name with same | hibernated
      · rw [same]
        exact moderate
      · refine moderate.hibernated hibernated ?_
        rw [hibernated.log]
        exact moderate.log
  | childStep now => exact moderate.childStepped sane.wellFormed now
  | childFail now => exact moderate.childFailed
  | restart now =>
      exact moderate_recovered
        (recovered_recover db.config db.aof db.snapshots now sane.tidy.sound)
        moderate.snapshots moderate.log

theorem length_of_validRoomName {name : Bytes} (valid : validRoomName name = true) :
    name.length ≤ 200 := by
  unfold validRoomName at valid
  rw [Bool.and_eq_true, decide_eq_true_eq] at valid
  exact valid.1.2

theorem clients_stepped (sane : Sane config db) (event : Event)
    (clients : ∀ fd, (db.clientRoom fd).length ≤ 200) :
    ∀ fd, ((db.step event).clientRoom fd).length ≤ 200 := by
  intro fd
  rcases clientRoom_step sane event fd with same | valid
  · rw [same]
    exact clients fd
  · exact length_of_validRoomName valid

/-- What a run of requests keeps. -/
theorem moderate_ran (node : config.nodeId ≤ uint32Max) {events : List Event}
    (requested : Requested events) (sane : Sane config db) (moderate : db.Moderate)
    (clients : ∀ fd, (db.clientRoom fd).length ≤ 200) :
    Sane config (db.run events) ∧ (db.run events).Moderate ∧
      ∀ fd, ((db.run events).clientRoom fd).length ≤ 200 := by
  induction events generalizing db with
  | nil => exact ⟨sane, moderate, clients⟩
  | cons event rest induction =>
      apply induction
      · exact fun call member => requested call (List.mem_cons_of_mem _ member)
      · exact sane.stepped event
      · exact moderate.stepped sane node event fun call equal =>
          requested call (equal ▸ List.mem_cons_self)
      · exact clients_stepped sane event clients

theorem moderate_fresh (config : Config) (now : Nat) : (fresh config now).Moderate :=
  moderate_recovered (recovered_recover config [] ∅ now (by simp)) (by simp) (by simp)

/-- What is known of a record that a command appends. -/
theorem logged_of_appended (sane : Sane config db) (moderate : db.Moderate)
    (node : config.nodeId ≤ uint32Max) {call : Call} (within : Within call.args)
    {record : AofRecord} (member : record ∈ db.appended call) :
    Logged (db.clientRoom call.clientFd) call.args record ∧
      record.timestampMs ≤ (db.execute call).1.clock := by
  have begun := sane.begun call
  unfold appended at member
  split at member
  · cases member
  · rename_i first rest args
    have head : call.args.head? = some first := by
      rw [args]
      rfl
    have executed : db.execute call =
        (db.beginCommand call).dispatch call (upper first) := by
      unfold execute
      rw [args]
    obtain ⟨new, grown, logged⟩ := logs_dispatch begun.wellFormed call
      ⟨within, by rw [begun.config]; exact node, (moderate.begun sane call).held⟩ head
    rcases Node.steps_log (dispatched_dispatch begun.wellFormed call head).steps with
      ⟨later, grownLater, bound⟩
    have same : new = later := List.append_cancel_left (grown.symm.trans grownLater)
    rw [grown, List.drop_left] at member
    rw [clientRoom_eq (clientRooms_beginCommand db call)] at logged
    rw [executed]
    exact ⟨logged record member, bound record (same ▸ member)⟩

/-- An accepted `MSET` appends its own arguments. -/
theorem aof_handleMset (db : Db) (now : Nat) (name : Bytes) {args : List Bytes}
    (shape : ¬ (args.length < 3 ∨ args.length % 2 = 0)) :
    ∃ record, record.args = args ∧
      (db.handleMset now name args).1.aof = db.aof ++ [record] := by
  have appends : ∀ (state : Db) (record : AofRecord), state.aof = db.aof →
      record.args = args → ∃ other, other.args = args ∧
        (state.append record).aof = db.aof ++ [other] := by
    intro state record same sameArgs
    exact ⟨record, sameArgs, by rw [← same]; rfl⟩
  unfold handleMset Keyspace.handleMset
  simp only [Keyspace.ofDb]
  rw [if_neg shape]
  refine appends _ _ ?_ rfl
  rw [aof_writePairs]
  exact aof_overwritten db now name 0 _

theorem appended_mset (sane : Sane config db) {call : Call} (mset : IsMset call.args)
    (shape : ¬ (call.args.length < 3 ∨ call.args.length % 2 = 0))
    (listening : call.subscribed = false)
    (woken : ((((db.beginCommand call).setClientRoom call.clientFd
        ((db.beginCommand call).clientRoom call.clientFd)).findRoom
          ((db.beginCommand call).clientRoom call.clientFd)).activate call.now
            ((db.beginCommand call).clientRoom call.clientFd) false).2 = true) :
    ∃ record ∈ db.appended call, record.args = call.args := by
  have begun := sane.begun call
  obtain ⟨first, rest, args, command⟩ : ∃ first rest, call.args = first :: rest ∧
      upper first = ascii "MSET" := by
    obtain ⟨first, head, command⟩ := Option.map_eq_some_iff.mp mset
    obtain ⟨rest, args⟩ := List.head?_eq_some_iff.mp head
    exact ⟨first, rest, args, command⟩
  have named : Command.named (upper first) = .inRoom .mset := by
    rw [command]
    decide
  have form : ((db.beginCommand call).setClientRoom call.clientFd
      ((db.beginCommand call).clientRoom call.clientFd)).WellFormed :=
    ⟨begun.wellFormed.exclusive, begun.wellFormed.asleep⟩
  rcases open_spec form call.now ((db.beginCommand call).clientRoom call.clientFd) with
    ⟨_, rearranged, _⟩
  have quiet := congrArg Node.log rearranged.node
  unfold appended dispatch
  simp only [args, named, listening, Bool.false_eq_true, if_false]
  rw [← args]
  unfold executeInRoom executeInRoomWith
  dsimp only
  split
  · rename_i equal
    rw [equal] at woken
    cases woken
  · rename_i awake equal
    rw [equal] at quiet
    rcases aof_handleMset awake call.now
      ((db.beginCommand call).clientRoom call.clientFd) shape with ⟨record, sameArgs, grown⟩
    refine ⟨record, ?_, sameArgs⟩
    have known : awake.aof = (db.beginCommand call).aof := quiet
    change _ ∈ (evictDespisedKeys (awake.handleMset call.now _ call.args).1 _ _).aof.drop _
    simp only [aof_evictDespisedKeys, grown, known, List.drop_left, List.mem_singleton]

end Db

open Db

/-- On every state reached by requests of clients: a record that one more
request appends is read back exactly when the request is no `MSET`, or leaves
room for the five tokens of the log. The identifier of a node and the clock are
integers of 32 and 64 bits. -/
theorem appended_readable_iff (config : Config) (node : config.nodeId ≤ uint32Max)
    (start : Nat) (events : List Event) (requested : Requested events) (call : Call)
    (asked : call.Requested) (record : AofRecord)
    (member : record ∈ ((fresh config start).run events).appended call)
    (fits : (((fresh config start).run events).execute call).1.clock ≤ uint64Max) :
    record.Readable ↔ (IsMset call.args → call.args.length + 5 ≤ kMaxArgs) := by
  have limits : kMaxArgs + 5 ≤ uint64Max ∧ 11 ≤ kMaxArgs ∧ 200 ≤ kMaxBulk := by decide
  have unselected : ∀ fd, ((fresh config start).clientRoom fd).length ≤ 200 := by
    intro fd
    have recovered := recovered_recover config [] ∅ start (by simp)
    rw [clientRoom, fresh, recovered.clientRooms]
    exact (by decide : defaultRoom.length ≤ 200)
  rcases moderate_ran node requested (sane_fresh config start)
    (moderate_fresh config start) unselected with ⟨sane, moderate, clients⟩
  rcases asked with ⟨buf, pos, stop, parsed⟩
  have within := parseRequest_within parsed
  rcases logged_of_appended sane moderate node within member with ⟨logged, timestamp⟩
  have bounded : record.Bounded :=
    ⟨by rw [logged.room]; exact (clients _).trans limits.2.2, logged.strings, logged.deadline,
      timestamp.trans fits, logged.node⟩
  have count := within.1
  rcases logged.count with ⟨mset, same⟩ | ⟨other, short⟩
  · rw [AofRecord.readable_iff bounded (by rw [same]; omega), same]
    exact ⟨fun few _ => few, fun few => few mset⟩
  · rw [AofRecord.readable_iff bounded (by omega)]
    exact ⟨fun _ mset => absurd mset other, fun _ => by omega⟩

/-- An `MSET` of empty keys and values. -/
def emptyMset (count : Nat) : Call :=
  { clientFd := 5
    args := ascii "MSET" :: List.replicate count []
    now := 1750000000000 }

theorem length_emptyMset (count : Nat) : (emptyMset count).args.length = count + 1 := by
  simp only [emptyMset, List.length_cons, List.length_replicate]

theorem requested_emptyMset {count : Nat} (few : count + 1 ≤ kMaxArgs) :
    (emptyMset count).Requested := by
  refine ⟨encode (emptyMset count).args, 0, _, parseRequest_encoded _ ?_ ?_⟩
  · rw [length_emptyMset]
    exact few
  · intro arg member
    rcases List.mem_cons.mp member with rfl | replicated
    · decide
    · rw [List.eq_of_mem_replicate replicated]
      decide

theorem appended_emptyMset {count : Nat} (pairs : 2 ≤ count ∧ count % 2 = 0) :
    ∃ record ∈ (fresh {} 1750000000000).appended (emptyMset count),
      record.args = (emptyMset count).args := by
  apply appended_mset (sane_fresh {} 1750000000000)
  · exact congrArg some (by decide : upper (ascii "MSET") = ascii "MSET")
  · rw [length_emptyMset]
    omega
  · rfl
  · rfl

theorem short_mset_readable :
    ∃ record ∈ ((fresh {} 1750000000000).run []).appended (emptyMset 2), record.Readable := by
  rcases appended_emptyMset (by decide : 2 ≤ 2 ∧ 2 % 2 = 0) with ⟨record, member, _⟩
  exact ⟨record, member, (appended_readable_iff {} (by decide) 1750000000000 [] (by simp [Requested])
    (emptyMset 2) (requested_emptyMset (by decide)) record member (by decide +kernel)).mpr
    fun _ => by decide⟩

/-- An `MSET` as long as the parser allows is accepted by a fresh node, and its
record is malformed for the parser of the log. -/
theorem long_mset_malformed :
    (emptyMset (kMaxArgs - 2)).Requested ∧
      ∃ record ∈ (fresh {} 1750000000000).appended (emptyMset (kMaxArgs - 2)),
        parse record.encodeRecord 0 = .malformed := by
  have limits : kMaxArgs - 2 + 1 ≤ kMaxArgs ∧ kMaxArgs < kMaxArgs - 2 + 1 + 5 ∧
      kMaxArgs - 2 + 1 + 5 ≤ uint64Max ∧ 2 ≤ kMaxArgs - 2 ∧ (kMaxArgs - 2) % 2 = 0 := by
    decide
  generalize kMaxArgs - 2 = count at limits
  refine ⟨requested_emptyMset limits.1, ?_⟩
  rcases appended_emptyMset limits.2.2.2 with ⟨record, member, sameArgs⟩
  refine ⟨record, member, ?_⟩
  have tokens : record.tokens.length = count + 1 + 5 := by
    rw [AofRecord.length_tokens, sameArgs, length_emptyMset]
  have parsed := parse_encoded_many [] [] record.tokens (tokens ▸ limits.2.1)
    (tokens ▸ limits.2.2.1)
  rw [List.nil_append, List.append_nil] at parsed
  exact parsed

end SomniumDB
