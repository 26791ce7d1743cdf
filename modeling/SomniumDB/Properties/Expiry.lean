import Mathlib.Data.List.MinMax
import SomniumDB.Abstract.Readers

/-! # Merges of one key and their deadlines

Two replicas take the same merges of a key, in any two orders and at any clock
readings. A merge that has expired leaves no trace, so an older one that arrives
later is taken as if nothing had been there. -/

namespace SomniumDB

open Bytes FsUtil

/-- The record that a merge with an explicit deadline has for a key. -/
def Event.merged (key : Bytes) : Event → Option Record
  | .command call =>
      match call.args with
      | [first, other, value, tsArg, nodeArg, expireArg] =>
          if upper first = ascii "CRDTMERGE" ∧ other = key then
            some
              { value
                expireAt := (parseI64 expireArg).getD 0
                timestampMs := Hlc.normalize ((parseU64 tsArg).getD 0)
                nodeId := (parseU64 nodeArg).getD 0 }
          else none
      | _ => none
  | _ => none

/-- The merges of a key in a run. -/
def keyMerges (key : Bytes) (events : List Event) : List Record :=
  events.filterMap (Event.merged key)

namespace Db

/-- A run in which the only writes are merges of one key. -/
def TakesMerges (place : Place) : Db → List Event → Prop
  | _, [] => True
  | db, event :: rest =>
      (event.Quiet ∨ ∃ call, event = .command call ∧ (event.merged place.2).isSome ∧
        db.Executes place.1 call) ∧ (db.step event).TakesMerges place rest

/-- The merge has the greatest version of all. -/
def Newest (merges : List Record) (newest : Record) : Prop :=
  newest ∈ merges ∧ ∀ record ∈ merges, record.version ≤ newest.version

/-- A merge that is found not to be stale after the newest one of `merges` has been
executed has expired at `time`. Those of `before` have been executed already. -/
def Timely (place : Place) (time : Nat) (merges : List Record) :
    Db → List Record → List Event → Prop
  | _, _, [] => True
  | db, before, event :: rest =>
      (∀ record, event.merged place.2 = some record →
        (∃ newest ∈ before, Newest merges newest) →
        (db.node.cell place).stale db.watermark event.now record.version = false →
        record.expired time = true) ∧
      (db.step event).Timely place time merges (before ++ (event.merged place.2).toList) rest

section Steps

variable {db : Db} {config : Config} {place : Place} {newest : Record} {time : Nat}
  {done : Prop}

/-- What a replica knows of one place. -/
def Tracks (db : Db) (place : Place) (time now : Nat) (newest : Record) (done : Prop) : Prop :=
  (db.node.cell place).Tracks db.watermark time now newest done

theorem Tracks.quiet (sane : Sane config db) {event : Event} (quiet : event.Quiet)
    (tracks : db.Tracks place time event.now newest done) :
    (db.step event).Tracks place time event.now newest done ∧
      (db.step event).watermark = db.watermark := by
  rcases cell_quiet sane quiet place with ⟨held, drops, cell, watermark⟩
  refine ⟨?_, watermark⟩
  unfold Tracks
  rw [cell, watermark]
  exact Cell.Tracks.dropped tracks drops

theorem merged_of_quiet {event : Event} (quiet : event.Quiet) (key : Bytes) :
    event.merged key = none := by
  unfold Event.merged
  split
  · rename_i call
    rcases quiet with ⟨first, kind, head, named, reads⟩
    split
    · rename_i shape
      rw [shape] at head
      cases head
      rw [if_neg]
      rintro ⟨spelled, _⟩
      have merge : Command.named (upper first) = .inRoom .crdtmerge := by
        rw [spelled]
        decide
      rw [merge] at named
      cases named
      cases reads
    · rfl
  · rfl

theorem merged_eq_some {call : Call} {key : Bytes} {record : Record}
    (merged : (Event.command call).merged key = some record) :
    ∃ first value tsArg nodeArg expireArg,
      call.args = [first, key, value, tsArg, nodeArg, expireArg] ∧
      upper first = ascii "CRDTMERGE" ∧
      record = { value
                 expireAt := (parseI64 expireArg).getD 0
                 timestampMs := Hlc.normalize ((parseU64 tsArg).getD 0)
                 nodeId := (parseU64 nodeArg).getD 0 } := by
  unfold Event.merged at merged
  dsimp only at merged
  split at merged
  · rename_i first other value tsArg nodeArg expireArg shape
    by_cases spelled : first.upper = ascii "CRDTMERGE" ∧ other = key
    · rw [if_pos spelled] at merged
      rcases spelled with ⟨spelled, rfl⟩
      exact ⟨first, value, tsArg, nodeArg, expireArg, shape, spelled,
        (Option.some.inj merged).symm⟩
    · rw [if_neg spelled] at merged
      cases merged
  · cases merged

/-- An executed merge is offered to the cell of its key. -/
theorem cell_merge (sane : Sane config db) {call : Call} {record : Record}
    (merged : (Event.command call).merged place.2 = some record)
    (executes : db.Executes place.1 call) :
    ((db.execute call).1.node.cell place = (db.node.cell place).offer db.config db.watermark
        call.now (.put place record)) ∧
      (db.execute call).1.watermark = db.watermark := by
  rcases merged_eq_some merged with ⟨first, value, tsArg, nodeArg, expireArg, args, spelled, rfl⟩
  rcases execute_crdtmerge sane args spelled executes.listening executes.accepted with
    ⟨logged, room, _, single, stamped, deadline, node⟩
  rcases node_beginCommand sane call with ⟨log, begun⟩
  rcases stamped.ts with ⟨ts, parsed, normalized⟩
  have here : (logged.room, place.2) = place := by rw [room, executes.room]
  have change : logged.put place.2 value = .put place
      { value
        expireAt := (parseI64 expireArg).getD 0
        timestampMs := Hlc.normalize ((parseU64 tsArg).getD 0)
        nodeId := (parseU64 nodeArg).getD 0 } := by
    rw [AofRecord.put, here, deadline, parsed, stamped.node]
    simp only [Option.getD_some, normalized]
  rw [change] at single node
  have watermark := congrArg Node.watermark node
  rw [Node.offer_watermark, begun] at watermark
  refine ⟨?_, watermark⟩
  rw [node]
  refine (Node.cell_offer _ _ _ single place).trans ((if_pos rfl).trans ?_)
  rw [begun]
  rfl

theorem Tracks.merged (sane : Sane config db) {call : Call} {record : Record}
    {before merges : List Record}
    (merged : (Event.command call).merged place.2 = some record)
    (executes : db.Executes place.1 call)
    (greatest : newest ∈ before → Newest merges newest)
    (tracks : db.Tracks place time call.now newest (newest ∈ before))
    (bound : record.version ≤ newest.version) (first : record ∉ before)
    (distinct : record.version = newest.version → record = newest)
    (timely : (∃ newest ∈ before, Newest merges newest) →
      (db.node.cell place).stale db.watermark call.now record.version = false →
        record.expired time = true) :
    (db.execute call).1.Tracks place time call.now newest (newest ∈ before ++ [record]) := by
  rcases cell_merge sane merged executes with ⟨offered, watermark⟩
  unfold Tracks
  rw [offered, watermark]
  by_cases same : record = newest
  · subst same
    have final := Cell.Tracks.offered_newest db.config place tracks first
    rw [show (record ∈ before ++ [record]) = True by simp]
    exact final
  · have older : record.version < newest.version :=
      lt_of_le_of_ne bound fun equal => same (distinct equal)
    rw [show (newest ∈ before ++ [record]) = (newest ∈ before) by simp [Ne.symm same]]
    exact Cell.Tracks.offered_older db.config place tracks older
      fun executed fresh => timely ⟨newest, executed, greatest executed⟩ fresh

/-- A whole run: all the merges there are stand in `before` or are still to come. -/
theorem Tracks.ran {merges before : List Record} {now : Nat} {events : List Event}
    (sane : Sane config db)
    (bound : ∀ record ∈ merges, record.version ≤ newest.version)
    (exact : newest ∈ merges ∨ merges = [])
    (all : (before ++ keyMerges place.2 events).Perm merges)
    (distinct : (merges.map Record.version).Nodup)
    (takes : db.TakesMerges place events) (chronological : Chronological now events)
    (timely : db.Timely place time merges before events)
    (tracks : db.Tracks place time now newest (newest ∈ before)) :
    (db.run events).Tracks place time (endOfRun now events) newest (newest ∈ merges) ∧
      (db.run events).watermark = db.watermark := by
  induction events generalizing db before now with
  | nil =>
      have same : (newest ∈ before) = (newest ∈ merges) := by
        have member : newest ∈ before ++ [] ↔ newest ∈ merges := all.mem_iff
        rw [List.append_nil] at member
        exact propext member
      rw [← same]
      exact ⟨tracks, rfl⟩
  | cons event rest induction =>
      rcases chronological with ⟨le, later⟩
      rcases takes with ⟨step, takesRest⟩
      rcases timely with ⟨admits, timelyRest⟩
      have current : db.Tracks place time event.now newest (newest ∈ before) :=
        Cell.Tracks.later tracks le
      rw [run_cons, endOfRun_cons]
      rcases step with quiet | ⟨call, rfl, merge, executes⟩
      · have silent := merged_of_quiet quiet place.2
        rw [silent, Option.toList_none, List.append_nil] at timelyRest
        rw [keyMerges, List.filterMap_cons_none silent] at all
        rcases Tracks.quiet sane quiet current with ⟨stepped, watermark⟩
        rcases induction (sane.stepped event) all takesRest later timelyRest stepped with
          ⟨ran, kept⟩
        exact ⟨ran, kept.trans watermark⟩
      · rcases Option.isSome_iff_exists.mp merge with ⟨record, merged⟩
        rw [merged, Option.toList_some] at timelyRest
        rw [keyMerges, List.filterMap_cons_some merged] at all
        have member : record ∈ merges := all.mem_iff.mp (by simp)
        have here : newest ∈ merges := exact.resolve_right (List.ne_nil_of_mem member)
        have first : record ∉ before := by
          intro twice
          have unique := (all.map Record.version).nodup_iff.mpr distinct
          rw [List.map_append, List.map_cons] at unique
          exact List.disjoint_of_nodup_append unique (List.mem_map_of_mem twice)
            List.mem_cons_self
        have only : record.version = newest.version → record = newest :=
          List.inj_on_of_nodup_map distinct member here
        have stepped := Tracks.merged sane merged executes (fun _ => ⟨here, bound⟩) current
          (bound record member) first only (admits record merged)
        have remaining : (before ++ [record] ++ keyMerges place.2 rest).Perm merges := by
          simpa [keyMerges] using all
        rcases induction (sane.stepped _) remaining takesRest later timelyRest stepped with
          ⟨ran, kept⟩
        exact ⟨ran, kept.trans (cell_merge sane merged executes).2⟩

/-- The condition depends on the merges there are, not on their order. -/
theorem timely_of_perm {merges others before : List Record} {events : List Event}
    (same : merges.Perm others) (timely : db.Timely place time merges before events) :
    db.Timely place time others before events := by
  induction events generalizing db before with
  | nil => trivial
  | cons event rest induction =>
      refine ⟨?_, induction timely.2⟩
      intro record merged executed
      refine timely.1 record merged ?_
      rcases executed with ⟨newest, member, here, bound⟩
      exact ⟨newest, member, same.mem_iff.mpr here,
        fun other present => bound other (same.mem_iff.mp present)⟩

theorem exists_newest (merges : List Record) :
    ∃ newest : Record, (∀ record ∈ merges, record.version ≤ newest.version) ∧
      (newest ∈ merges ∨ merges = [] ∧ newest.timestampMs = 0) := by
  cases found : merges.argmax Record.version with
  | none =>
      have none : merges = [] := List.argmax_eq_none.mp found
      exact ⟨{}, by simp [none], .inr ⟨none, rfl⟩⟩
  | some newest =>
      exact ⟨newest, fun record member => List.le_of_mem_argmax member found,
        .inl (List.argmax_mem found)⟩

end Steps

end Db

open Db

/-- The state of a replica that has not seen the key yet. -/
structure Unseen (db : Db) (place : Place) : Prop where
  held : db.held place = none
  tomb : db.findTomb place.1 place.2 = none

/-- What is seen of the key in the end. -/
theorem visible_of_merges {config : Config} {db : Db} {place : Place} {merges : List Record}
    {newest : Record} {start time : Nat} {events : List Event}
    (reachable : Reachable config db) (unseen : Unseen db place)
    (bound : ∀ record ∈ merges, record.version ≤ newest.version)
    (exact : newest ∈ merges ∨ merges = [] ∧ newest.timestampMs = 0)
    (all : (keyMerges place.2 events).Perm merges)
    (distinct : (merges.map Record.version).Nodup)
    (takes : db.TakesMerges place events) (chronological : Chronological start events)
    (done : endOfRun start events ≤ time)
    (timely : db.Timely place time merges [] events) :
    visible time ((db.run events).held place) =
      if newest.timestampMs ≤ db.watermark then none else visible time (some newest) := by
  have empty : db.Tracks place time start newest (newest ∈ ([] : List Record)) := by
    refine ⟨unseen.tomb, fun _ => unseen.held, ?_, fun absurd => by cases absurd⟩
    intro _ record found
    exact absurd (unseen.held.symm.trans found) (by simp)
  rcases Tracks.ran (sane_of_reachable reachable) bound
    (exact.imp_right And.left) all distinct takes chronological timely empty with
    ⟨tracks, watermark⟩
  rw [← watermark]
  apply Cell.Tracks.visible tracks _ done
  rcases exact with member | ⟨_, zero⟩
  · exact .inl member
  · exact .inr (by rw [zero]; exact Nat.zero_le _)

/-- Replicas that have executed the same merges of a key, in whatever orders and at
whatever clock readings, show the same of it at every time after `time`, as long
as no merge that can still be seen at `time` was found not to be stale after the
newest one had been executed. -/
theorem merges_converge (leftConfig rightConfig : Config) (left right : Db) (place : Place)
    (leftReachable : Reachable leftConfig left) (rightReachable : Reachable rightConfig right)
    (leftUnseen : Unseen left place) (rightUnseen : Unseen right place)
    (watermark : left.watermark = right.watermark)
    (leftStart rightStart : Nat) (leftRun rightRun : List Event)
    (leftTakes : left.TakesMerges place leftRun)
    (rightTakes : right.TakesMerges place rightRun)
    (leftChronological : Chronological leftStart leftRun)
    (rightChronological : Chronological rightStart rightRun)
    (same : (keyMerges place.2 leftRun).Perm (keyMerges place.2 rightRun))
    (distinct : ((keyMerges place.2 leftRun).map Record.version).Nodup)
    (time : Nat) (leftDone : endOfRun leftStart leftRun ≤ time)
    (rightDone : endOfRun rightStart rightRun ≤ time)
    (leftTimely : left.Timely place time (keyMerges place.2 leftRun) [] leftRun)
    (rightTimely : right.Timely place time (keyMerges place.2 rightRun) [] rightRun) :
    ∀ later, time ≤ later → visible later ((left.run leftRun).held place) =
      visible later ((right.run rightRun).held place) := by
  intro later le
  rcases exists_newest (keyMerges place.2 rightRun) with ⟨newest, bound, exact⟩
  have seenRight := visible_of_merges rightReachable rightUnseen bound exact (.refl _)
    ((same.map _).nodup_iff.mp distinct) rightTakes rightChronological rightDone rightTimely
  have seenLeft := visible_of_merges leftReachable leftUnseen bound exact same
    ((same.map _).nodup_iff.mp distinct) leftTakes leftChronological leftDone
    (timely_of_perm same leftTimely)
  exact visible_mono le (by rw [seenLeft, seenRight, watermark])

/-- The newer of two merges, with the earlier deadline. -/
def shortMerge (now : Nat) : Event :=
  clientCall now [ascii "CRDTMERGE", ascii "k", ascii "b", ascii "2", ascii "2", ascii "100"]

/-- The older one, with the later deadline. -/
def longMerge (now : Nat) : Event :=
  clientCall now [ascii "CRDTMERGE", ascii "k", ascii "a", ascii "1", ascii "1", ascii "10000"]

def mergedPlace : Place := (defaultRoom, ascii "k")

theorem reachable_fresh : Reachable {} (fresh {} 0) := ⟨0, [], rfl⟩

theorem unseen_fresh : Unseen (fresh {} 0) mergedPlace :=
  ⟨by decide +kernel, by decide +kernel⟩

/-- The replica that executes them in the order of their versions. -/
def inOrder : List Event := [longMerge 50, shortMerge 70]

theorem takesMerges_inOrder : (fresh {} 0).TakesMerges mergedPlace inOrder :=
  ⟨.inr ⟨_, rfl, by decide, rfl, by decide +kernel, by decide +kernel⟩,
    .inr ⟨_, rfl, by decide, rfl, by decide +kernel, by decide +kernel⟩, trivial⟩

theorem chronological_inOrder : Chronological 0 inOrder :=
  ⟨by decide, by decide, trivial⟩

theorem merges_converge_sample :
    visible 150 (((fresh {} 0).run [shortMerge 50, longMerge 60]).held mergedPlace) =
      visible 150 (((fresh {} 0).run inOrder).held mergedPlace) := by
  have takes : (fresh {} 0).TakesMerges mergedPlace [shortMerge 50, longMerge 60] :=
    ⟨.inr ⟨_, rfl, by decide, rfl, by decide +kernel, by decide +kernel⟩,
      .inr ⟨_, rfl, by decide, rfl, by decide +kernel, by decide +kernel⟩, trivial⟩
  have stale : ((((fresh {} 0).step (shortMerge 50)).node.cell mergedPlace).stale
      ((fresh {} 0).step (shortMerge 50)).watermark 60 ⟨65536, 1⟩) = true := by
    decide +kernel
  have late : ¬ ∃ newest ∈ keyMerges (ascii "k") [longMerge 50],
      Newest (keyMerges (ascii "k") inOrder) newest := by
    rintro ⟨newest, member, _, bound⟩
    rw [show newest = _ from List.mem_singleton.mp member] at bound
    exact absurd (bound _ (.tail _ (.head _))) (by decide)
  refine merges_converge {} {} _ _ mergedPlace reachable_fresh reachable_fresh unseen_fresh
    unseen_fresh rfl 0 0 _ _ takes takesMerges_inOrder ⟨by decide, by decide, trivial⟩
    chronological_inOrder ?_ (by decide) 80 (by decide) (by decide) ⟨?_, ?_, trivial⟩
    ⟨?_, ?_, trivial⟩ 150 (by decide)
  · exact List.Perm.swap _ _ _
  · rintro _ _ ⟨_, absurd, _⟩
    cases absurd
  · rintro record ⟨⟩ _ fresh
    exact absurd (stale.symm.trans fresh) (by decide)
  · rintro _ _ ⟨_, absurd, _⟩
    cases absurd
  · intro record _ executed
    exact absurd executed late

/-- The older merge arrives after the newer one has expired and is taken; on the
other replica the newer one had replaced it. -/
theorem merges_diverge :
    let expiredFirst := [shortMerge 50, longMerge 200]
    (fresh {} 0).TakesMerges mergedPlace expiredFirst ∧
      (fresh {} 0).TakesMerges mergedPlace inOrder ∧
      Chronological 0 expiredFirst ∧ Chronological 0 inOrder ∧
      (keyMerges (ascii "k") expiredFirst).Perm (keyMerges (ascii "k") inOrder) ∧
      ((keyMerges (ascii "k") expiredFirst).map Record.version).Nodup ∧
      endOfRun 0 expiredFirst ≤ 300 ∧ endOfRun 0 inOrder ≤ 300 ∧
      visible 300 (((fresh {} 0).run expiredFirst).held mergedPlace) =
        some (ascii "a", 10000) ∧
      visible 300 (((fresh {} 0).run inOrder).held mergedPlace) = none := by
  have takes : (fresh {} 0).TakesMerges mergedPlace [shortMerge 50, longMerge 200] :=
    ⟨.inr ⟨_, rfl, by decide, rfl, by decide +kernel, by decide +kernel⟩,
      .inr ⟨_, rfl, by decide, rfl, by decide +kernel, by decide +kernel⟩, trivial⟩
  exact ⟨takes, takesMerges_inOrder, ⟨by decide, by decide, trivial⟩, chronological_inOrder,
    List.Perm.swap _ _ _, by decide, by decide, by decide, by decide +kernel,
    by decide +kernel⟩

end SomniumDB
