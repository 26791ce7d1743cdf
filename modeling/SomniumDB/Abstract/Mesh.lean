import Mathlib.Data.Fintype.Card
import SomniumDB.Abstract.Site

/-! # Nodes that replicate to each other

Every node logs its own changes and offers them to the others. The watermark of a node
stands where no change that it does not know can come from below. -/

namespace SomniumDB

open LastWriter

/-- What holds of all sites together: what is accepted has been issued elsewhere, and a
site knows every change at or below its watermark. -/
structure Meshed (config : ι → Config) (horizon : Nat) (site : ι → Site) : Prop where
  sound : ∀ home, (site home).Sound (config home) horizon
  origin : ∀ home, ∀ change ∈ (site home).accepted,
    ∃ other, other ≠ home ∧ change ∈ (site other).issued
  exact : ∀ home other, other ≠ home → ∀ change ∈ (site other).issued,
    change.version.ts ≤ (site home).node.watermark → change ∈ (site home).accepted
  below : ∀ home other, other ≠ home →
    (site home).node.watermark ≤ (site other).node.frontier

variable {config : ι → Config} {horizon : Nat} {site after : ι → Site} {home : ι}

/-- One site moves. -/
structure Moves (site after : ι → Site) (home : ι) : Prop where
  others : ∀ other, other ≠ home → after other = site other
  grows : ∀ change ∈ (site home).issued, change ∈ (after home).issued
  fresh : ∀ change ∈ (after home).issued,
    change ∈ (site home).issued ∨ (site home).node.frontier < change.version.ts
  frontier : (site home).node.frontier ≤ (after home).node.frontier
  keeps : ∀ change ∈ (site home).accepted, change ∈ (after home).accepted

section Moves

variable (moves : Moves site after home)

include moves

theorem Moves.issued_grows (other : ι) : ∀ change ∈ (site other).issued,
    change ∈ (after other).issued := by
  intro change issued
  by_cases here : other = home
  · subst other
    exact moves.grows change issued
  · rw [moves.others other here]
    exact issued

theorem Moves.issued_fresh (other : ι) : ∀ change ∈ (after other).issued,
    change ∈ (site other).issued ∨ (site other).node.frontier < change.version.ts := by
  intro change issued
  by_cases here : other = home
  · subst other
    exact moves.fresh change issued
  · rw [moves.others other here] at issued
    exact .inl issued

theorem Moves.frontier_rises (other : ι) :
    (site other).node.frontier ≤ (after other).node.frontier := by
  by_cases here : other = home
  · subst other
    exact moves.frontier
  · rw [moves.others other here]

theorem Moves.accepted_grows (other : ι) : ∀ change ∈ (site other).accepted,
    change ∈ (after other).accepted := by
  intro change member
  by_cases here : other = home
  · subst other
    exact moves.keeps change member
  · rw [moves.others other here]
    exact member

/-- Where a site stands against a frontier of another one, it stays. -/
theorem Moves.stays {target other : ι} {low : Nat}
    (below : low ≤ (site other).node.frontier)
    (exact : ∀ change ∈ (site other).issued, change.version.ts ≤ low →
      change ∈ (site target).accepted) :
    ∀ change ∈ (after other).issued, change.version.ts ≤ low →
      change ∈ (after target).accepted := by
  intro change issued reached
  rcases moves.issued_fresh other change issued with earlier | above
  · exact moves.accepted_grows target change (exact change earlier reached)
  · omega

end Moves

theorem Meshed.moved (meshed : Meshed config horizon site) (moves : Moves site after home)
    (sound : (after home).Sound (config home) horizon)
    (origin : ∀ change ∈ (after home).accepted, change ∈ (site home).accepted ∨
      ∃ other, other ≠ home ∧ change ∈ (site other).issued)
    (exact : ∀ other, other ≠ home →
      (after home).node.watermark ≤ (site other).node.frontier ∧
      ∀ change ∈ (site other).issued, change.version.ts ≤ (after home).node.watermark →
        change ∈ (after home).accepted) :
    Meshed config horizon after := by
  constructor
  · intro other
    by_cases here : other = home
    · subst other
      exact sound
    · rw [moves.others other here]
      exact meshed.sound other
  · intro other change member
    have earlier : ∃ source, source ≠ other ∧ change ∈ (site source).issued := by
      by_cases here : other = home
      · subst other
        rcases origin change member with before | issued
        · exact meshed.origin home change before
        · exact issued
      · rw [moves.others other here] at member
        exact meshed.origin other change member
    rcases earlier with ⟨source, different, issued⟩
    exact ⟨source, different, moves.issued_grows source change issued⟩
  · intro target source different change issued reached
    by_cases here : target = home
    · subst target
      rw [moves.others source different] at issued
      exact (exact source different).2 change issued reached
    · rw [moves.others target here] at reached
      exact moves.stays (meshed.below target source different)
        (meshed.exact target source different) change issued reached
  · intro target source different
    have bound : (after target).node.watermark ≤ (site source).node.frontier := by
      by_cases here : target = home
      · subst target
        exact (exact source different).1
      · rw [moves.others target here]
        exact meshed.below target source different
    exact bound.trans (moves.frontier_rises source)

/-- A move that leaves the watermark alone. -/
theorem Meshed.level (meshed : Meshed config horizon site) (moves : Moves site after home)
    (sound : (after home).Sound (config home) horizon)
    (origin : ∀ change ∈ (after home).accepted, change ∈ (site home).accepted ∨
      ∃ other, other ≠ home ∧ change ∈ (site other).issued)
    (watermark : (after home).node.watermark = (site home).node.watermark) :
    Meshed config horizon after := by
  apply meshed.moved moves sound origin
  intro other different
  rw [watermark]
  constructor
  · exact meshed.below home other different
  · intro change issued reached
    exact moves.keeps change (meshed.exact home other different change issued reached)

/-- No two sites have issued changes of one version. -/
theorem Meshed.same_source (meshed : Meshed config horizon site)
    (distinct : Function.Injective fun home => (config home).nodeId) {source : ι}
    {change other : Change} (issued : change ∈ (site source).issued)
    (known : other ∈ (site home).known) (same : other.version = change.version) :
    other ∈ (site source).issued := by
  have stamp : other.version.node = (config source).nodeId := by
    rw [same]
    exact (meshed.sound source).origin change issued
  rcases known with own | foreign
  · have equal : home = source :=
      distinct (((meshed.sound home).origin other own).symm.trans stamp)
    exact equal ▸ own
  · rcases meshed.origin home other foreign with ⟨origin, _, listed⟩
    have equal : origin = source :=
      distinct (((meshed.sound origin).origin other listed).symm.trans stamp)
    exact equal ▸ listed

/-! ## What a site has heard -/

/-- Every frontier in the table of a site is one that another site has reached, and the
site has accepted every change at or below it. -/
def HeardFrom (config : ι → Config) (site : ι → Site) (home : ι)
    (frontiers : FiniteMap Nat Nat) : Prop :=
  ∀ id frontier, frontiers.lookup id = some frontier →
    ∃ other, other ≠ home ∧ (config other).nodeId = id ∧
      frontier ≤ (site other).node.frontier ∧
      ∀ change ∈ (site other).issued, change.version.ts ≤ frontier →
        change ∈ (site home).accepted

theorem HeardFrom.moved {target : ι} {frontiers : FiniteMap Nat Nat}
    (heard : HeardFrom config site target frontiers) (moves : Moves site after home) :
    HeardFrom config after target frontiers := by
  intro id frontier found
  rcases heard id frontier found with ⟨other, different, same, reached, exact⟩
  refine ⟨other, different, same, reached.trans (moves.frontier_rises other), ?_⟩
  exact moves.stays reached exact

/-- A frontier is entered. -/
theorem HeardFrom.entered {frontiers : FiniteMap Nat Nat} {source : ι} {frontier : Nat}
    (heard : HeardFrom config site home frontiers)
    (distinct : Function.Injective fun home => (config home).nodeId) (different : source ≠ home)
    (reached : frontier ≤ (site source).node.frontier)
    (exact : ∀ change ∈ (site source).issued, change.version.ts ≤ frontier →
      change ∈ (site home).accepted) :
    HeardFrom config site home (frontiers.insert (config source).nodeId
      (max ((frontiers.lookup (config source).nodeId).getD 0) frontier)) := by
  intro id value found
  rw [FiniteMap.lookup_insert_if] at found
  by_cases here : id = (config source).nodeId
  · rw [if_pos here, Option.some.injEq] at found
    refine ⟨source, different, here.symm, ?_⟩
    cases earlier : frontiers.lookup (config source).nodeId with
    | none =>
        rw [earlier, Option.getD_none, Nat.zero_max] at found
        subst value
        exact ⟨reached, exact⟩
    | some old =>
        rw [earlier, Option.getD_some] at found
        subst value
        rcases heard _ old earlier with ⟨other, _, same, before, known⟩
        have equal : other = source := distinct same
        subst other
        constructor
        · exact max_le before reached
        · intro change issued covered
          rcases le_max_iff.mp covered with low | high
          · exact known change issued low
          · exact exact change issued high
  · rw [if_neg here] at found
    exact heard id value found

/-- When as many frontiers have been heard as there are other sites, every other site has
been heard. -/
theorem HeardFrom.everyone [Fintype ι] [DecidableEq ι] {frontiers : FiniteMap Nat Nat}
    (heard : HeardFrom config site home frontiers)
    (distinct : Function.Injective fun home => (config home).nodeId)
    (enough : Fintype.card ι ≤
      (frontiers.toPairs.filter fun entry => entry.1 ≠ (config home).nodeId).length + 1)
    {other : ι} (different : other ≠ home) :
    ∃ frontier, ((config other).nodeId, frontier) ∈
      frontiers.toPairs.filter fun entry => entry.1 ≠ (config home).nodeId := by
  generalize entries : (frontiers.toPairs.filter fun entry => entry.1 ≠ (config home).nodeId) =
    pairs at enough ⊢
  have nodup : (pairs.map Prod.fst).Nodup := by
    rw [← entries]
    exact frontiers.toPairs_nodup_keys.sublist (List.filter_sublist.map Prod.fst)
  have others : (pairs.map Prod.fst).toFinset ⊆
      (Finset.univ.erase home).image fun other => (config other).nodeId := by
    intro id member
    rcases List.mem_map.mp (List.mem_toFinset.mp member) with ⟨entry, listed, rfl⟩
    rw [← entries, List.mem_filter, FiniteMap.mem_toPairs] at listed
    rcases heard entry.1 entry.2 listed.1 with ⟨source, away, same, _⟩
    exact Finset.mem_image.mpr
      ⟨source, Finset.mem_erase.mpr ⟨away, Finset.mem_univ source⟩, same⟩
  have full : (pairs.map Prod.fst).toFinset =
      (Finset.univ.erase home).image fun other => (config other).nodeId := by
    apply Finset.eq_of_subset_of_card_le others
    rw [Finset.card_image_of_injective _ distinct, Finset.card_erase_of_mem (Finset.mem_univ home),
      Finset.card_univ, List.toFinset_card_of_nodup nodup, List.length_map]
    omega
  have member : (config other).nodeId ∈ (pairs.map Prod.fst).toFinset := by
    rw [full]
    exact Finset.mem_image.mpr
      ⟨other, Finset.mem_erase.mpr ⟨different, Finset.mem_univ other⟩, rfl⟩
  rcases List.mem_map.mp (List.mem_toFinset.mp member) with ⟨entry, listed, same⟩
  exact ⟨entry.2, same ▸ listed⟩

end SomniumDB
