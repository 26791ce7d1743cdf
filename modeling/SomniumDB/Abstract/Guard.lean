import SomniumDB.Abstract.Dump
import SomniumDB.Abstract.Offer

/-! # What keeps a deleted key deleted

After a delete of version `d` a place is guarded: a record there is newer, and
where there is none, or only an expired one, the tombstone or the watermark
turns away everything up to `d`. -/

namespace SomniumDB

/-- A delete is the only change of its record. -/
theorem AofRecord.changes_of_del {record : AofRecord} {place : Place} {version : Version}
    (member : .del place version ∈ record.changes) :
    record.changes = [.del place version] := by
  unfold changes at member ⊢
  cases shape : record.args with
  | nil =>
      simp only [shape] at member
      cases member
  | cons name rest =>
      simp only [shape] at member
      dsimp only at member ⊢
      by_cases merges : name.upper = Bytes.ascii "CRDTMERGE" ∧ 4 ≤ rest.length ∨
          name.upper = Bytes.ascii "SET" ∧ 2 ≤ rest.length
      · rw [if_pos merges] at member
        cases List.mem_singleton.mp member
      · rw [if_neg merges] at member
        rw [if_neg merges]
        by_cases isMset : name.upper = Bytes.ascii "MSET"
        · rw [if_pos isMset] at member
          rcases List.mem_map.mp member with ⟨pair, _, equal⟩
          cases equal
        · rw [if_neg isMset] at member
          rw [if_neg isMset]
          by_cases delete : name.upper = Bytes.ascii "DEL" ∧ 1 ≤ rest.length ∨
              name.upper = Bytes.ascii "CRDTDEL" ∧ 3 ≤ rest.length
          · rw [if_pos delete] at member
            rw [if_pos delete, List.mem_singleton.mp member]
          · rw [if_neg delete] at member
            cases member

namespace Node

variable {config : Config} {now : Nat} {node after : Node} {place : Place} {version : Version}

/-- The tombstone or the watermark turns away everything up to `version`. -/
def Protected (node : Node) (place : Place) (version : Version) : Prop :=
  (∃ tomb, node.tomb place = some tomb ∧ version ≤ tomb) ∨ version.ts ≤ node.watermark

structure Guarded (now : Nat) (node : Node) (place : Place) (version : Version) : Prop where
  newer : ∀ record, node.held place = some record → version < record.version
  covered : (∀ record, node.held place = some record → record.expired now = true) →
    node.Protected place version
  observed : version.ts ≤ node.clock

/-- What `set_tomb` leaves protects against its version. -/
theorem protected_of_marked (peers : config.peerCount ≠ 0) {delete : Version}
    (stored : Option Version) (le : version ≤ delete)
    (tomb : node.tomb place = marked config node.watermark stored delete) :
    node.Protected place version := by
  unfold marked at tomb
  by_cases low : config.peerCount = 0 ∨ delete.ts ≤ node.watermark
  · rw [if_pos low] at tomb
    exact .inr ((Version.ts_le_of_le le).trans (low.resolve_left peers))
  · rw [if_neg low] at tomb
    refine .inl ⟨_, tomb, ?_⟩
    cases stored with
    | none => exact le
    | some old => exact le.trans (le_max_right old delete)

/-- A change that may be made under a guarded place: newer, and not already
expired unless the watermark protects. -/
def Arrives (now watermark : Nat) (place : Place) (version : Version) (change : Change) : Prop :=
  change.place = place → version < change.version ∧
    ∀ record, change = .put place record → record.expired now = true →
      version.ts ≤ watermark

theorem Guarded.apply (guarded : node.Guarded now place version) (peers : config.peerCount ≠ 0)
    {change : Change} (arrives : Arrives now node.watermark place version change) :
    (node.apply config change).Guarded now place version := by
  have observed : version.ts ≤ (node.apply config change).clock := by
    rw [apply_clock]
    exact guarded.observed
  by_cases here : place = change.place
  · rcases arrives here.symm with ⟨newer, unexpired⟩
    cases change with
    | put target record =>
        change place = target at here
        subst here
        have held : (node.apply config (.put place record)).held place = some record :=
          (apply_held _ _ _ _).trans (if_pos rfl)
        refine ⟨?_, ?_, observed⟩
        · intro other found
          cases held.symm.trans found
          exact newer
        · intro expired
          right
          rw [apply_watermark]
          exact unexpired record rfl (expired record held)
    | del target delete =>
        change place = target at here
        subst here
        have held : (node.apply config (.del place delete)).held place = none :=
          (apply_held _ _ _ _).trans (if_pos rfl)
        refine ⟨?_, ?_, observed⟩
        · intro other found
          cases held.symm.trans found
        · intro _
          refine protected_of_marked peers (node.tomb place) newer.le ?_
          simp only [Node.apply, mark, bury_tomb, if_true]
          rfl
  · have held : (node.apply config change).held place = node.held place :=
      (apply_held _ _ _ _).trans (if_neg here)
    refine ⟨?_, ?_, observed⟩
    · rw [held]
      exact guarded.newer
    · rw [held]
      intro expired
      unfold Protected
      rw [apply_tomb_of_ne config node here, apply_watermark]
      exact guarded.covered expired

theorem Guarded.applyAll (guarded : node.Guarded now place version)
    (peers : config.peerCount ≠ 0) {changes : List Change}
    (arrives : ∀ change ∈ changes, Arrives now node.watermark place version change) :
    (node.applyAll config changes).Guarded now place version := by
  induction changes generalizing node with
  | nil => exact guarded
  | cons change rest induction =>
      refine induction (guarded.apply peers (arrives change List.mem_cons_self)) ?_
      intro other member
      rw [apply_watermark]
      exact arrives other (List.mem_cons_of_mem _ member)

theorem Guarded.commit (guarded : node.Guarded now place version)
    (peers : config.peerCount ≠ 0) {record : AofRecord}
    (arrives : ∀ change ∈ record.changes, Arrives now node.watermark place version change) :
    (node.commit config record).Guarded now place version := by
  have applied := guarded.applyAll peers arrives
  exact ⟨applied.newer, applied.covered, guarded.observed.trans (le_max_left _ _)⟩

theorem version_le_normalized (record : Record) : record.version ≤ record.normalized.version := by
  rw [Version.le_iff]
  change record.timestampMs < Hlc.normalize record.timestampMs ∨
    record.timestampMs = Hlc.normalize record.timestampMs ∧ record.nodeId ≤ record.nodeId
  have grows := Hlc.le_normalize record.timestampMs
  omega

/-- A version that is not stale under a guarded place is newer. -/
theorem Guarded.newer_of_admitted (guarded : node.Guarded now place version)
    (tidy : node.Tidy) {incoming : Version}
    (admitted : node.stale place incoming = false) : version < incoming := by
  unfold stale at admitted
  cases found : node.held place with
  | none =>
      simp only [found] at admitted
      have shielded : node.Protected place version := guarded.covered (by simp [found])
      cases buried : node.tomb place with
      | none =>
          simp only [buried] at admitted
          have above : node.watermark < incoming.ts := Nat.not_le.mp (of_decide_eq_false admitted)
          rcases shielded with ⟨other, same, _⟩ | low
          · cases buried.symm.trans same
          · exact Version.lt_of_ts_lt (low.trans_lt above)
      | some tomb =>
          simp only [buried] at admitted
          have above : tomb < incoming := not_le.mp (of_decide_eq_false admitted)
          rcases shielded with ⟨other, same, le⟩ | low
          · cases buried.symm.trans same
            exact le.trans_lt above
          · exact (Version.lt_of_ts_lt (low.trans_lt (tidy.above place tomb buried))).trans above
  | some record =>
      simp only [found] at admitted
      exact (guarded.newer record found).trans (not_le.mp (of_decide_eq_false admitted))

/-- No write that has already expired is made under a deleted place. -/
def Timely (now watermark : Nat) (deleted : Place → Version → Prop) (record : AofRecord) : Prop :=
  ∀ place content, .put place content ∈ record.changes → content.expired now = true →
    ∀ version, deleted place version → version.ts ≤ watermark

theorem Guarded.step (guarded : node.Guarded now place version) (peers : config.peerCount ≠ 0)
    (tidy : node.Tidy) {deleted : Place → Version → Prop} (isDeleted : deleted place version)
    (step : Step config now node after) {new : List AofRecord}
    (grown : after.log = node.log ++ new)
    (timely : ∀ record ∈ new, Timely now node.watermark deleted record) :
    after.Guarded now place version := by
  have arrives : ∀ record ∈ new, (∀ change ∈ record.changes, change.place = place →
      version < change.version) →
      ∀ change ∈ record.changes, Arrives now node.watermark place version change := by
    intro record member newer change inRecord here
    refine ⟨newer change inRecord here, ?_⟩
    rintro content rfl expired
    exact timely record member place content inRecord expired version isDeleted
  cases step with
  | own step =>
      cases step with
      | settle held settles =>
          refine ⟨?_, ?_, guarded.observed⟩
          · intro record found
            rcases settles place with same | ⟨gone, _⟩ | moved
            · exact guarded.newer record (same ▸ found)
            · cases gone.symm.trans found
            · rcases Option.map_eq_some_iff.mp (moved.symm.trans found) with ⟨before, here, rfl⟩
              exact (guarded.newer before here).trans_le (version_le_normalized before)
          · intro expired
            apply guarded.covered
            intro record found
            rcases settles place with same | ⟨_, before, here, past⟩ | moved
            · exact expired record (same.trans found)
            · cases found.symm.trans here
              exact past
            · rw [found] at moved
              exact expired record.normalized moved
      | issue record issued =>
          have member : record ∈ new := by
            have same := List.append_cancel_left grown
            rw [← same]
            exact List.mem_singleton_self record
          refine guarded.commit peers (arrives record member ?_)
          intro change inRecord _
          apply Version.lt_of_ts_lt
          rw [AofRecord.version_of_mem_changes inRecord]
          exact guarded.observed.trans_lt issued.fresh
  | observe ts =>
      exact ⟨guarded.newer, guarded.covered, guarded.observed.trans (le_max_left _ _)⟩
  | receive record change received =>
      have member : record ∈ new := by
        have same := List.append_cancel_left grown
        rw [← same]
        exact List.mem_singleton_self record
      refine guarded.commit peers (arrives record member ?_)
      intro other inRecord here
      rw [received.single] at inRecord
      cases List.mem_singleton.mp inRecord
      subst here
      exact guarded.newer_of_admitted tidy received.admitted
  | announce fresh above =>
      exact ⟨guarded.newer, guarded.covered, guarded.observed.trans above.le⟩
  | collect low above =>
      refine ⟨guarded.newer, ?_, guarded.observed⟩
      intro expired
      rcases guarded.covered expired with ⟨tomb, buried, le⟩ | below
      · by_cases kept : low < tomb.ts
        · exact .inl ⟨tomb, by simp [buried, Option.filter_some, kept], le⟩
        · exact .inr ((Version.ts_le_of_le le).trans (Nat.le_of_not_lt kept))
      · exact .inr (below.trans above.le)

/-- The places that some records delete. -/
def DeletedBy (records : List AofRecord) (place : Place) (version : Version) : Prop :=
  ∃ record ∈ records, .del place version ∈ record.changes

theorem Protected.replay (shielded : node.Protected place version) (config : Config)
    (change : Change) : (node.replay config change).Protected place version := by
  rcases shielded with ⟨tomb, buried, le⟩ | low
  · by_cases here : ∃ delete, change = .del place delete
    · rcases here with ⟨delete, rfl⟩
      left
      simp only [Node.replay, mark, observe_tomb, bury_tomb, if_true, hold_tomb, buried, marked]
      by_cases alone : config.peerCount = 0 ∨ delete.ts ≤ (node.hold place none).watermark
      · rw [if_pos alone]
        exact ⟨tomb, rfl, le⟩
      · rw [if_neg alone]
        exact ⟨_, rfl, le.trans (le_max_left _ _)⟩
    · refine .inl ⟨tomb, ?_, le⟩
      rw [replay_tomb_of_ne config node fun delete equal => here ⟨delete, equal⟩]
      exact buried
  · right
    rw [replay_watermark]
    exact low

end Node

end SomniumDB
