import SomniumDB.Library.LastUpdate
import SomniumDB.Abstract.Invariant

/-! # How the content of a node comes about

Along any steps the log only grows and the clock only advances, and every
record held is one that was held before or one that the log puts there. -/

namespace SomniumDB

open LastUpdate

namespace Node

variable {config : Config} {now : Nat} {node after : Node}

/-- After any changes a place holds what its last change left there. -/
theorem applyAll_held (config : Config) (node : Node) (changes : List Change)
    (place : Place) :
    (node.applyAll config changes).held place =
      ((last Change.place changes place).map Change.result).getD (node.held place) :=
  foldl_get (apply_held config) node changes place

theorem step_clock (step : Step config now node after) : node.clock ≤ after.clock := by
  cases step with
  | own step =>
      cases step with
      | settle held settles => exact le_rfl
      | issue record issued => exact le_max_left _ _
  | observe ts => exact le_max_left _ _
  | receive record change received => exact le_max_left _ _
  | announce fresh above => exact above.le
  | collect low above => exact le_rfl

theorem steps_clock (steps : Steps config now node after) : node.clock ≤ after.clock := by
  induction steps with
  | refl => exact le_rfl
  | tail _ step induction => exact induction.trans (step_clock step)

/-- One step appends at most one record, whose version the clock has reached. -/
theorem step_log (step : Step config now node after) :
    ∃ new, after.log = node.log ++ new ∧ ∀ record ∈ new, record.timestampMs ≤ after.clock := by
  cases step with
  | own step =>
      cases step with
      | settle held settles => exact ⟨[], by simp, by simp⟩
      | issue record issued => exact ⟨[record], rfl, by simp [commit]⟩
  | observe ts => exact ⟨[], by simp, by simp⟩
  | receive record change received => exact ⟨[record], rfl, by simp [commit]⟩
  | announce fresh above => exact ⟨[], by simp, by simp⟩
  | collect low above => exact ⟨[], by simp, by simp⟩

theorem steps_log (steps : Steps config now node after) :
    ∃ new, after.log = node.log ++ new ∧ ∀ record ∈ new, record.timestampMs ≤ after.clock := by
  induction steps with
  | refl => exact ⟨[], by simp, by simp⟩
  | tail _ step induction =>
      rcases induction with ⟨first, firstEq, firstBound⟩
      rcases step_log step with ⟨later, laterEq, laterBound⟩
      refine ⟨first ++ later, by rw [laterEq, firstEq, List.append_assoc], ?_⟩
      intro record member
      rcases List.mem_append.mp member with inFirst | inLater
      · exact (firstBound record inFirst).trans (step_clock step)
      · exact laterBound record inLater

/-- A record held after a commit was held before, or the commit puts it there. -/
theorem commit_held {record : AofRecord} {place : Place} {held : Record}
    (found : (node.commit config record).held place = some held) :
    node.held place = some held ∨ .put place held ∈ record.changes := by
  have same : (node.commit config record).held place =
      (node.applyAll config record.changes).held place := rfl
  rw [same, applyAll_held] at found
  cases final : last Change.place record.changes place with
  | none =>
      rw [final] at found
      exact .inl found
  | some change =>
      rcases last_eq_some final with ⟨member, here⟩
      rw [final, Option.map_some, Option.getD_some] at found
      cases change with
      | put target content =>
          cases found
          cases here
          exact .inr member
      | del target version => cases found

/-- A step appends at most one record, and a record held afterwards was held
before or is put there by that record. -/
theorem step_source (step : Step config now node after) :
    ∃ new, after.log = node.log ++ new ∧ ∀ place held, after.held place = some held →
      (∃ before, node.held place = some before ∧ (held = before ∨ held = before.normalized)) ∨
        ∃ record ∈ new, .put place held ∈ record.changes := by
  have committed : ∀ (record : AofRecord) (place : Place) (held : Record),
      (node.commit config record).held place = some held →
      (∃ before, node.held place = some before ∧
          (held = before ∨ held = before.normalized)) ∨
        ∃ other ∈ [record], .put place held ∈ other.changes := by
    intro record place held here
    rcases commit_held here with kept | put
    · exact .inl ⟨held, kept, .inl rfl⟩
    · exact .inr ⟨record, List.mem_singleton_self _, put⟩
  have same : ∀ place held, node.held place = some held →
      (∃ before, node.held place = some before ∧
          (held = before ∨ held = before.normalized)) ∨
        ∃ record ∈ ([] : List AofRecord), .put place held ∈ record.changes :=
    fun place held found => .inl ⟨held, found, .inl rfl⟩
  cases step with
  | own step =>
      cases step with
      | settle kept settles =>
          refine ⟨[], (List.append_nil _).symm, ?_⟩
          intro place held found
          left
          rcases settles place with unchanged | ⟨gone, _⟩ | moved
          · exact ⟨held, unchanged ▸ found, .inl rfl⟩
          · exact absurd (gone.symm.trans found) (by simp)
          · rcases Option.map_eq_some_iff.mp (moved.symm.trans found) with ⟨before, here, equal⟩
            exact ⟨before, here, .inr equal.symm⟩
      | issue record issued => exact ⟨[record], rfl, committed record⟩
  | observe ts => exact ⟨[], (List.append_nil _).symm, same⟩
  | receive record change received => exact ⟨[record], rfl, committed record⟩
  | announce fresh above => exact ⟨[], (List.append_nil _).symm, same⟩
  | collect low above => exact ⟨[], (List.append_nil _).symm, same⟩

/-- Where a record comes from. -/
theorem step_held (step : Step config now node after) {place : Place} {held : Record}
    (found : after.held place = some held) :
    (∃ before, node.held place = some before ∧ (held = before ∨ held = before.normalized)) ∨
      ∃ record ∈ after.log, .put place held ∈ record.changes := by
  rcases step_source step with ⟨new, grown, source⟩
  rcases source place held found with kept | ⟨record, member, put⟩
  · exact .inl kept
  · exact .inr ⟨record, grown ▸ List.mem_append_right _ member, put⟩

end Node

end SomniumDB
