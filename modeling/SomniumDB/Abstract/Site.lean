import SomniumDB.Abstract.Origin
import SomniumDB.Abstract.Replica

/-! # One of several nodes

The changes that a node knows are its own and those it has accepted from others. Each of
its places reflects them, along whatever the node does, as long as no deadline passes. -/

namespace SomniumDB

open LastWriter Node

/-- The change is in the hybrid format and has no deadline before `horizon`. -/
structure Change.Lasts (horizon : Nat) (change : Change) : Prop where
  hybrid : Hlc.kLegacyLimit ≤ change.version.ts
  lasting : ∀ place record, change = .put place record → record.expired horizon = false

/-- A node with the changes it has made itself and those of others that it has accepted. -/
structure Site where
  node : Node
  issued : Set Change
  accepted : Set Change

namespace Site

/-- The changes that the node knows. -/
def known (site : Site) : Set Change :=
  site.issued ∪ site.accepted

/-- What holds of a site as long as nothing expires. -/
structure Sound (config : Config) (horizon : Nat) (site : Site) : Prop where
  reflects : ∀ place,
    (site.node.cell place).Reflects site.node.watermark site.known place
  origin : ∀ change ∈ site.issued, change.version.node = config.nodeId
  clock : ∀ change ∈ site.known, change.version.ts ≤ site.node.clock
  lasts : ∀ change ∈ site.known, change.Lasts horizon
  distinct : Distinct Change.place Change.version site.known
  frontier : site.node.frontier ≤ site.node.clock

variable {config : Config} {horizon now : Nat} {site : Site} {after : Node}
  {record : AofRecord} {change : Change}

/-- A record held is the put of a known change, so it lasts. -/
theorem Sound.held_lasts (sound : site.Sound config horizon) {place : Place} {record : Record}
    (held : site.node.held place = some record) : (Change.put place record).Lasts horizon :=
  sound.lasts _ ((sound.reflects place).held record held).2.member

theorem Sound.current (sound : site.Sound config horizon) (before : now ≤ horizon)
    {place : Place} {record : Record} (held : site.node.held place = some record) :
    record.expired now = false := by
  cases past : record.expired now with
  | false => rfl
  | true =>
      have later := Record.expired_mono before past
      rw [(sound.held_lasts held).lasting place record rfl] at later
      cases later

theorem Sound.seen (sound : site.Sound config horizon) (before : now ≤ horizon)
    (place : Place) : (site.node.cell place).seen now = site.node.held place := by
  change (site.node.held place).filter _ = site.node.held place
  cases held : site.node.held place with
  | none => rfl
  | some record =>
      rw [Option.filter_some, sound.current before held]
      rfl

/-- As long as nothing expires, nothing is lost and nothing changes its format. -/
theorem Sound.settled (sound : site.Sound config horizon) (before : now ≤ horizon)
    {held : Place → Option Record}
    (settles : ∀ place, Settles now (site.node.held place) (held place)) :
    held = site.node.held := by
  funext place
  rcases settles place with same | ⟨_, record, found, past⟩ | moved
  · exact same
  · rw [sound.current before found] at past
    cases past
  · rw [moved]
    cases found : site.node.held place with
    | none => rfl
    | some record =>
        have hybrid : Hlc.kLegacyLimit ≤ record.timestampMs := (sound.held_lasts found).hybrid
        rw [Option.map_some, Record.normalized, Hlc.normalize_of_le hybrid]

/-- The clock and the frontier move on. -/
theorem Sound.advanced (sound : site.Sound config horizon) {clock frontier : Nat}
    (later : site.node.clock ≤ clock) (reached : frontier ≤ clock) :
    Sound config horizon { site with node := { site.node with clock, frontier } } where
  reflects := sound.reflects
  origin := sound.origin
  clock change member := (sound.clock change member).trans later
  lasts := sound.lasts
  distinct := sound.distinct
  frontier := reached

/-- Nothing depends on the log, which a rewrite replaces. -/
theorem Sound.rewritten (sound : site.Sound config horizon) (log : List AofRecord) :
    Sound config horizon { site with node := { site.node with log } } :=
  ⟨sound.reflects, sound.origin, sound.clock, sound.lasts, sound.distinct, sound.frontier⟩

/-! ## Changes of the node's own -/

/-- The site after a record of the node's own. -/
def logged (site : Site) (config : Config) (record : AofRecord) : Site :=
  { site with
    node := site.node.commit config record
    issued := site.issued ∪ {change | change ∈ record.changes} }

theorem mem_known_logged : change ∈ (site.logged config record).known ↔
    change ∈ record.changes ∨ change ∈ site.known := by
  constructor
  · intro member
    rcases member with (issued | listed) | accepted
    · exact .inr (.inl issued)
    · exact .inl listed
    · exact .inr (.inr accepted)
  · intro member
    rcases member with listed | issued | accepted
    · exact .inl (.inr listed)
    · exact .inl (.inl issued)
    · exact .inr accepted

/-- A record of the node's own names each place once. -/
theorem Sound.issue (sound : site.Sound config horizon) (peers : config.peerCount ≠ 0)
    (own : record.nodeId = config.nodeId) (fresh : site.node.clock < record.timestampMs)
    (apart : (record.changes.map Change.place).Nodup)
    (lasts : ∀ change ∈ record.changes, change.Lasts horizon) :
    (site.logged config record).Sound config horizon := by
  have stamped : ∀ change ∈ record.changes, change.version.ts = record.timestampMs := by
    intro change member
    rw [AofRecord.version_of_mem_changes member]
    rfl
  have above : ∀ change ∈ record.changes, ∀ other ∈ site.known,
      other.version.ts < change.version.ts := by
    intro change member other earlier
    rw [stamped change member]
    exact (sound.clock other earlier).trans_lt fresh
  have cells : (∀ change ∈ record.changes,
      (site.node.applyAll config record.changes).cell change.place =
        (site.node.cell change.place).written config site.node.watermark change) ∧
      ∀ place, place ∉ record.changes.map Change.place →
        (site.node.applyAll config record.changes).cell place = site.node.cell place :=
    cell_applyAll apart
  have watermark : (site.logged config record).node.watermark = site.node.watermark :=
    applyAll_watermark config site.node record.changes
  constructor
  · intro place
    rw [watermark]
    change ((site.node.applyAll config record.changes).cell place).Reflects _ _ _
    by_cases touched : place ∈ record.changes.map Change.place
    · rcases List.mem_map.mp touched with ⟨change, member, rfl⟩
      rw [cells.1 change member]
      have newest : ∀ other ∈ site.known, other.place = change.place →
          other.version < change.version :=
        fun other earlier _ => Version.lt_of_ts_lt (above change member other earlier)
      apply ((sound.reflects change.place).written peers rfl newest).congr
      intro other here
      rw [mem_known_logged, Set.mem_insert_iff]
      apply or_congr_left
      constructor
      · intro listed
        exact List.inj_on_of_nodup_map apart listed member here
      · intro equal
        rw [equal]
        exact member
    · rw [cells.2 place touched]
      apply (sound.reflects place).congr
      intro other here
      rw [mem_known_logged]
      constructor
      · intro either
        rcases either with listed | earlier
        · exact absurd (here ▸ List.mem_map_of_mem listed) touched
        · exact earlier
      · exact .inr
  · intro change member
    rcases member with earlier | listed
    · exact sound.origin change earlier
    · rw [AofRecord.version_of_mem_changes listed]
      exact own
  · intro change member
    change change.version.ts ≤ max site.node.clock record.timestampMs
    rcases mem_known_logged.mp member with listed | earlier
    · rw [stamped change listed]
      exact le_max_right _ _
    · exact (sound.clock change earlier).trans (le_max_left _ _)
  · intro change member
    rcases mem_known_logged.mp member with listed | earlier
    · exact lasts change listed
    · exact sound.lasts change earlier
  · intro left leftMember right rightMember same version
    rcases mem_known_logged.mp leftMember with leftNew | leftEarlier
    · rcases mem_known_logged.mp rightMember with rightNew | rightEarlier
      · exact List.inj_on_of_nodup_map apart leftNew rightNew same
      · have below := above left leftNew right rightEarlier
        rw [version] at below
        exact absurd below (lt_irrefl _)
    · rcases mem_known_logged.mp rightMember with rightNew | rightEarlier
      · have below := above right rightNew left leftEarlier
        rw [version] at below
        exact absurd below (lt_irrefl _)
      · exact sound.distinct left leftEarlier right rightEarlier same version
  · change (site.node.applyAll config record.changes).frontier ≤
      max site.node.clock record.timestampMs
    rw [applyAll_frontier]
    exact sound.frontier.trans (le_max_left _ _)

/-- The record names each place once and has no deadline before `horizon`. -/
structure Plain (horizon : Nat) (record : AofRecord) : Prop where
  apart : (record.changes.map Change.place).Nodup
  lasting : ∀ place held, .put place held ∈ record.changes → held.expired horizon = false

theorem locals_still {node : Node} (locals : Locals config now node after) :
    after.watermark = node.watermark ∧ after.frontier = node.frontier := by
  induction locals with
  | refl => exact ⟨rfl, rfl⟩
  | @tail middle final _ step induction =>
      cases step with
      | settle held settles => exact induction
      | issue record issued =>
          constructor
          · exact (applyAll_watermark config middle record.changes).trans induction.1
          · exact (applyAll_frontier config middle record.changes).trans induction.2

/-- The steps of the node's own, at a clock reading in the hybrid format. -/
theorem Sound.locals (sound : site.Sound config horizon) (peers : config.peerCount ≠ 0)
    (wall : Hlc.kLegacyLimit ≤ now * 2 ^ 16) (before : now ≤ horizon)
    (locals : Locals config now site.node after) {new : List AofRecord}
    (grown : after.log = site.node.log ++ new) (plain : ∀ record ∈ new, Plain horizon record) :
    Sound config horizon
      { site with
        node := after
        issued := site.issued ∪ {change | change ∈ new.flatMap AofRecord.changes} } := by
  induction locals generalizing new with
  | refl =>
      rw [List.self_eq_append_right] at grown
      subst new
      have same : site.issued ∪ {change | change ∈ ([] : List AofRecord).flatMap
          AofRecord.changes} = site.issued := by
        ext change
        simp
      rw [same]
      exact sound
  | @tail middle final earlier step induction =>
      rcases steps_log (Locals.steps earlier) with ⟨first, firstEq, _⟩
      cases step with
      | settle held settles =>
          have mid := induction grown plain
          rw [mid.settled before settles]
          exact mid
      | issue record issued =>
          change middle.log ++ [record] = site.node.log ++ new at grown
          rw [firstEq, List.append_assoc, List.append_cancel_left_eq] at grown
          subst new
          have mid := induction firstEq fun other member =>
            plain other (List.mem_append_left _ member)
          have here := plain record (List.mem_append_right _ (List.mem_singleton_self record))
          have lasts : ∀ change ∈ record.changes, change.Lasts horizon := by
            intro change member
            constructor
            · rw [AofRecord.version_of_mem_changes member]
              exact wall.trans issued.current
            · intro place held equal
              exact here.lasting place held (equal ▸ member)
          have done := mid.issue peers issued.origin issued.fresh here.apart lasts
          have same : site.issued ∪ {change | change ∈ (first ++ [record]).flatMap
              AofRecord.changes} =
              site.issued ∪ {change | change ∈ first.flatMap AofRecord.changes} ∪
                {change | change ∈ record.changes} := by
            ext change
            simp [or_assoc]
          rw [same]
          exact done

/-! ## Changes of other nodes -/

theorem offer_clock {node : Node} (single : record.changes = [change]) :
    (node.offer config now record change).clock = max node.clock change.version.ts := by
  have stamp : change.version.ts = record.timestampMs := by
    rw [AofRecord.version_of_mem_changes (single ▸ List.mem_singleton_self change)]
    rfl
  rw [offer_eq]
  by_cases stale :
      (touch now (node.observe change.version.ts) change.place).stale change.place change.version =
      true
  · rw [if_pos stale]
    rfl
  · rw [if_neg stale]
    change max (max node.clock change.version.ts) record.timestampMs = _
    rw [stamp, max_assoc, max_self]

theorem offer_frontier (config : Config) (now : Nat) (node : Node) (record : AofRecord)
    (change : Change) : (node.offer config now record change).frontier = node.frontier := by
  rw [offer_eq]
  by_cases stale :
      (touch now (node.observe change.version.ts) change.place).stale change.place change.version =
      true
  · rw [if_pos stale]
    rfl
  · rw [if_neg stale]
    exact applyAll_frontier config _ record.changes

/-- The site after a change of another node. -/
def offered (site : Site) (config : Config) (now : Nat) (record : AofRecord)
    (change : Change) : Site :=
  { site with
    node := site.node.offer config now record change
    accepted := insert change site.accepted }

theorem known_offered : (site.offered config now record change).known =
    insert change site.known :=
  Set.union_insert

theorem Sound.offer (sound : site.Sound config horizon) (peers : config.peerCount ≠ 0)
    (before : now ≤ horizon) (single : record.changes = [change])
    (lasts : change.Lasts horizon)
    (exact : change.version.ts ≤ site.node.watermark → change ∈ site.known)
    (distinct : ∀ other ∈ site.known, other.place = change.place →
      other.version = change.version → other = change) :
    (site.offered config now record change).Sound config horizon := by
  constructor
  · intro place
    change ((site.node.offer config now record change).cell place).Reflects
      (site.node.offer config now record change).watermark _ _
    rw [cell_offer config now site.node single place, offer_watermark, known_offered]
    by_cases here : place = change.place
    · rw [if_pos here]
      exact (sound.reflects place).offered peers here.symm (sound.seen before place) exact
    · rw [if_neg here]
      apply (sound.reflects place).congr
      intro other there
      rw [Set.mem_insert_iff]
      constructor
      · intro either
        rcases either with equal | earlier
        · rw [equal] at there
          exact absurd there.symm here
        · exact earlier
      · exact .inr
  · exact sound.origin
  · intro other member
    rw [known_offered] at member
    change other.version.ts ≤ (site.node.offer config now record change).clock
    rw [offer_clock single]
    rcases Set.mem_insert_iff.mp member with equal | earlier
    · rw [equal]
      exact le_max_right _ _
    · exact (sound.clock other earlier).trans (le_max_left _ _)
  · intro other member
    rw [known_offered] at member
    rcases Set.mem_insert_iff.mp member with equal | earlier
    · rw [equal]
      exact lasts
    · exact sound.lasts other earlier
  · intro left leftMember right rightMember same version
    rw [known_offered] at leftMember rightMember
    rcases Set.mem_insert_iff.mp leftMember with leftEqual | leftEarlier
    · subst left
      rcases Set.mem_insert_iff.mp rightMember with rightEqual | rightEarlier
      · exact rightEqual.symm
      · exact (distinct right rightEarlier same.symm version.symm).symm
    · rcases Set.mem_insert_iff.mp rightMember with rightEqual | rightEarlier
      · subst right
        exact distinct left leftEarlier same version
      · exact sound.distinct left leftEarlier right rightEarlier same version
  · change (site.node.offer config now record change).frontier ≤
      (site.node.offer config now record change).clock
    rw [offer_frontier, offer_clock single]
    exact sound.frontier.trans (le_max_left _ _)

/-- The tombstones that a higher watermark covers are forgotten. -/
theorem Sound.collect (sound : site.Sound config horizon) {low : Nat}
    (rises : site.node.watermark ≤ low) :
    Sound config horizon
      { site with
        node :=
          { site.node with
            watermark := low
            tomb := fun place => (site.node.tomb place).filter fun version =>
              decide (low < version.ts) } } where
  reflects place := (sound.reflects place).collected sound.distinct rises
  origin := sound.origin
  clock := sound.clock
  lasts := sound.lasts
  distinct := sound.distinct
  frontier := sound.frontier

/-! ## Steps that log nothing -/

theorem Sound.step (sound : site.Sound config horizon) (before : now ≤ horizon)
    (step : Step config now site.node after) (log : after.log = site.node.log) :
    Sound config horizon { site with node := after } ∧ site.node.frontier ≤ after.frontier := by
  have longer : ∀ record : AofRecord, site.node.log ++ [record] ≠ site.node.log := by
    intro record same
    rw [List.append_right_eq_self] at same
    cases same
  cases step with
  | own own =>
      cases own with
      | settle held settles =>
          rw [sound.settled before settles]
          exact ⟨sound, le_rfl⟩
      | issue record issued => exact absurd log (longer record)
  | observe ts =>
      constructor
      · exact sound.advanced (le_max_left _ _) (sound.frontier.trans (le_max_left _ _))
      · exact le_rfl
  | receive record change received => exact absurd log (longer record)
  | announce fresh above =>
      constructor
      · exact sound.advanced above.le le_rfl
      · exact sound.frontier.trans above.le
  | collect low above => exact ⟨sound.collect above.le, le_rfl⟩

/-- Steps that leave the log as it is move only the clock, the frontier and the
watermark. -/
theorem Sound.quiet (sound : site.Sound config horizon) (before : now ≤ horizon)
    (steps : Steps config now site.node after) (log : after.log = site.node.log) :
    Sound config horizon { site with node := after } ∧ site.node.frontier ≤ after.frontier := by
  induction steps with
  | refl => exact ⟨sound, le_rfl⟩
  | @tail middle final earlier step induction =>
      rcases steps_log earlier with ⟨first, firstEq, _⟩
      rcases step_log step with ⟨second, secondEq, _⟩
      rw [secondEq, firstEq, List.append_assoc, List.append_right_eq_self,
        List.append_eq_nil_iff] at log
      rw [log.1, List.append_nil] at firstEq
      rw [log.2, List.append_nil] at secondEq
      have mid := induction firstEq
      have done := mid.1.step before step secondEq
      exact ⟨done.1, mid.2.trans done.2⟩

end Site

end SomniumDB
