import SomniumDB.Abstract.History

/-! # Offering a replicated change

A change that is offered to a node either loses against what its place has, or
is applied; every other place is left alone. -/

namespace SomniumDB

namespace Node

variable {config : Config} {now : Nat} {node : Node} {record : AofRecord} {change : Change}
  {place : Place}

theorem apply_tomb_of_ne (config : Config) (node : Node) {change : Change} {place : Place}
    (other : place ≠ change.place) :
    (node.apply config change).tomb place = node.tomb place := by
  cases change with
  | put target record =>
      change place ≠ target at other
      simp only [apply, hold_tomb]
      by_cases absent : (node.held target).isNone = true
      · rw [if_pos absent]
        rw [bury_tomb, if_neg other]
      · rw [if_neg absent]
  | del target version =>
      change place ≠ target at other
      simp only [apply, mark, bury_tomb, if_neg other]
      rfl

theorem applyAll_single (single : record.changes = [change]) :
    node.applyAll config record.changes = node.apply config change := by
  rw [single]
  rfl

theorem offer_eq (config : Config) (now : Nat) (node : Node) (record : AofRecord)
    (change : Change) :
    node.offer config now record change =
      if ((node.observe change.version.ts).touch now change.place).stale change.place
          change.version then
        (node.observe change.version.ts).touch now change.place
      else ((node.observe change.version.ts).touch now change.place).commit config record :=
  rfl

theorem offer_watermark (config : Config) (now : Nat) (node : Node) (record : AofRecord)
    (change : Change) :
    (node.offer config now record change).watermark = node.watermark := by
  rw [offer_eq]
  by_cases stale :
      (touch now (node.observe change.version.ts) change.place).stale change.place change.version =
      true
  · rw [if_pos stale]
    rfl
  · rw [if_neg stale]
    simp only [commit, applyAll_watermark]
    rfl

/-- A place other than that of the change is left alone. -/
theorem offer_elsewhere (config : Config) (now : Nat) (node : Node)
    (single : record.changes = [change]) (other : place ≠ change.place) :
    (node.offer config now record change).held place = node.held place ∧
      (node.offer config now record change).tomb place = node.tomb place := by
  have touched : ((node.observe change.version.ts).touch now change.place).held place =
      node.held place := by
    rw [touch, hold_held, if_neg other]
    rfl
  rw [offer_eq]
  by_cases stale :
      (touch now (node.observe change.version.ts) change.place).stale change.place change.version =
      true
  · rw [if_pos stale]
    exact ⟨touched, rfl⟩
  · rw [if_neg stale]
    simp only [commit, applyAll_single single]
    exact ⟨((apply_held _ _ _ _).trans (if_neg other)).trans touched,
      apply_tomb_of_ne config _ other⟩

/-- Everything the node has under a place is older than `version`. -/
structure Older (node : Node) (place : Place) (version : Version) : Prop where
  held : ∀ record, node.held place = some record → record.version < version
  tomb : ∀ tomb, node.tomb place = some tomb → tomb < version
  watermark : node.watermark < version.ts

/-- A version above everything under the place is admitted, whether or not what
is held there has expired. -/
theorem Older.admitted (older : node.Older change.place change.version) :
    ((node.observe change.version.ts).touch now change.place).stale change.place
      change.version = false := by
  unfold stale
  cases found : (touch now (node.observe change.version.ts) change.place).held change.place with
  | none =>
      cases found : (touch now (node.observe change.version.ts) change.place).tomb change.place with
      | none => exact decide_eq_false (Nat.not_le.mpr older.watermark)
      | some tomb => exact decide_eq_false (not_le.mpr (older.tomb tomb found))
  | some held =>
      rw [touch, hold_held, if_pos rfl] at found
      have before := older.held held (Option.filter_eq_some_iff.mp found).1
      exact decide_eq_false (not_le.mpr before)

theorem Older.offer_elsewhere {version : Version} (older : node.Older place version)
    (single : record.changes = [change]) (other : place ≠ change.place) :
    (node.offer config now record change).Older place version := by
  rcases Node.offer_elsewhere config now node single other with ⟨held, tomb⟩
  refine ⟨?_, ?_, ?_⟩
  · rw [held]
    exact older.held
  · rw [tomb]
    exact older.tomb
  · rw [offer_watermark]
    exact older.watermark

theorem offer_of_older (change : Change) (older : node.Older change.place change.version)
    (single : record.changes = [change]) :
    (node.offer config now record change).held change.place = change.result := by
  rw [offer_eq, older.admitted, if_neg (by simp)]
  simp only [commit, applyAll_single single]
  exact (apply_held _ _ _ _).trans (if_pos rfl)

/-- A change is stale against an unexpired record of at least its version. -/
theorem offer_of_held (change : Change) {held : Record}
    (found : node.held change.place = some held)
    (current : held.expired now = false) (newer : change.version ≤ held.version) :
    (node.offer config now record change).held change.place = some held := by
  have touched : ((node.observe change.version.ts).touch now change.place).held change.place =
      some held := by
    rw [touch, hold_held, if_pos rfl, observe_held, found]
    simp [Option.filter_some, current]
  have refused : ((node.observe change.version.ts).touch now change.place).stale change.place
      change.version = true := by
    unfold stale
    rw [touched]
    exact decide_eq_true newer
  rw [offer_eq, refused, if_pos rfl]
  exact touched

end Node

end SomniumDB
