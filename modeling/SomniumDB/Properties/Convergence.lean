import SomniumDB.Abstract.Cluster

/-! # A cluster converges

In every run of a cluster in which no node restarts and no deadline passes, every node
shows the newest of the changes that it knows, whatever was delivered in whatever order and
however often. Once every change has been accepted everywhere, all nodes hold the same. -/

namespace SomniumDB

open Bytes LastWriter

namespace Cluster

variable {ι : Type u}

/-- A node of the cluster, with what it knows. -/
def site (cluster : Cluster ι) (home : ι) : Site where
  node := (cluster.node home).node
  issued := {change | change ∈ cluster.issued home}
  accepted := {change | change ∈ cluster.accepted home}

/-- What holds after every proper move. -/
structure Sound (config : ι → Config) (horizon : Nat) (cluster : Cluster ι) : Prop where
  sane : ∀ home, Db.Sane (config home) (cluster.node home)
  meshed : Meshed config horizon cluster.site
  heard : ∀ home, HeardFrom config cluster.site home (cluster.node home).frontiers

/-- Every node has as many peers as there are other nodes, and no two have one id. -/
structure Mesh [Fintype ι] (config : ι → Config) : Prop where
  ids : Function.Injective fun home => (config home).nodeId
  several : 1 < Fintype.card ι
  peers : ∀ home, (config home).peerCount + 1 = Fintype.card ι

variable {config : ι → Config} {horizon : Nat} {cluster after : Cluster ι} {home : ι}

theorem Mesh.linked [Fintype ι] (mesh : Mesh config) (home : ι) :
    (config home).peerCount ≠ 0 := by
  have several := mesh.several
  have peers := mesh.peers home
  omega

theorem finite_known (cluster : Cluster ι) (home : ι) : (cluster.known home).Finite := by
  apply (cluster.issued home ++ cluster.accepted home).finite_toSet.subset
  intro change known
  exact List.mem_append.mpr known

theorem known_start (config : ι → Config) (now : ι → Nat) (home : ι) :
    ((start config now).site home).known = ∅ := by
  ext change
  simp [Site.known, site, start]

theorem sound_start (config : ι → Config) (now : ι → Nat) (horizon : Nat) :
    (start config now).Sound config horizon := by
  have untouched : ∀ home, ∀ change, change ∉ ((start config now).site home).known := by
    intro home change
    rw [known_start]
    exact Set.notMem_empty change
  constructor
  · intro home
    exact Db.sane_fresh (config home) (now home)
  · constructor
    · intro home
      constructor
      · intro place
        apply Cell.Reflects.empty
        intro change known
        exact absurd known (untouched home change)
      · intro change issued
        cases issued
      · intro change known
        exact absurd known (untouched home change)
      · intro change known
        exact absurd known (untouched home change)
      · intro change known
        exact absurd known (untouched home change)
      · exact le_rfl
    · intro home change accepted
      cases accepted
    · intro home other different change issued
      cases issued
    · intro home other different
      exact Nat.zero_le _
  · intro home id frontier found
    cases found

variable [DecidableEq ι]

/-- A move of one node, which leaves the others alone. -/
theorem Sound.moved (sound : cluster.Sound config horizon)
    (others : ∀ other, other ≠ home → after.node other = cluster.node other)
    (sane : Db.Sane (config home) (after.node home))
    (moves : Moves cluster.site after.site home) (meshed : Meshed config horizon after.site)
    (heard : HeardFrom config cluster.site home (after.node home).frontiers ∨
      HeardFrom config after.site home (after.node home).frontiers) :
    after.Sound config horizon := by
  constructor
  · intro other
    by_cases here : other = home
    · subst other
      exact sane
    · rw [others other here]
      exact sound.sane other
  · exact meshed
  · intro other
    by_cases here : other = home
    · subst other
      rcases heard with before | done
      · exact before.moved moves
      · exact done
    · rw [others other here]
      exact (sound.heard other).moved moves

/-! ## The moves -/

section Own

variable {event : Event}

theorem site_own (home : ι) (event : Event) :
    (cluster.step (.own home event)).site home =
      { cluster.site home with
        node := ((cluster.node home).step event).node
        issued := {change | change ∈ cluster.issued home} ∪
          {change | change ∈
            ((cluster.node home).appendedBy event).flatMap AofRecord.changes} } := by
  have issued : {change | change ∈ cluster.issued home ++
      ((cluster.node home).appendedBy event).flatMap AofRecord.changes} =
      {change | change ∈ cluster.issued home} ∪
        {change | change ∈
          ((cluster.node home).appendedBy event).flatMap AofRecord.changes} := by
    ext change
    exact List.mem_append
  unfold site step
  dsimp only
  rw [Function.update_self, Function.update_self, issued]

theorem Sound.own_moves (sound : cluster.Sound config horizon)
    (linked : (config home).peerCount ≠ 0)
    (proper : cluster.Proper horizon (.own home event)) :
    ((cluster.step (.own home event)).site home).Sound (config home) horizon ∧
      Moves cluster.site (cluster.step (.own home event)).site home := by
  have allowed : Own horizon (cluster.node home) event := proper.allowed
  have sane := sound.sane home
  have here := sound.meshed.sound home
  rcases Db.step_own sane allowed with ⟨log, grown, steps⟩
  have begun := here.rewritten log
  have done : ((cluster.step (.own home event)).site home).Sound (config home) horizon ∧
      (∀ change ∈ ((cluster.node home).appendedBy event).flatMap AofRecord.changes,
        (cluster.node home).frontier < change.version.ts) ∧
      (cluster.node home).frontier ≤ ((cluster.node home).step event).frontier := by
    rw [site_own]
    rcases steps with locals | ⟨nothing, steps⟩
    · have still := Site.locals_still locals
      rcases Node.locals_log locals with ⟨new, longer, own⟩
      have same : new = (cluster.node home).appendedBy event :=
        List.append_cancel_left (longer.symm.trans grown)
      rw [same] at own longer
      have plain : ∀ record ∈ (cluster.node home).appendedBy event,
          Site.Plain horizon record := by
        cases event with
        | command call => exact allowed.2.2
        | _ =>
            intro record member
            cases member
      refine ⟨begun.locals linked proper.wall proper.before locals longer plain, ?_, ?_⟩
      · intro change member
        rcases List.mem_flatMap.mp member with ⟨record, logged, listed⟩
        rw [AofRecord.version_of_mem_changes listed]
        exact here.frontier.trans_lt (own record logged).2
      · exact still.2.symm.le
    · rw [nothing, List.append_nil] at grown
      have quiet := begun.quiet proper.before steps grown
      rw [nothing]
      refine ⟨?_, by simp, quiet.2⟩
      have same : {change | change ∈ cluster.issued home} ∪
          {change | change ∈ ([] : List AofRecord).flatMap AofRecord.changes} =
          {change | change ∈ cluster.issued home} := by
        ext change
        simp
      rw [same]
      exact quiet.1
  constructor
  · exact done.1
  · constructor
    · intro other different
      unfold site step
      dsimp only
      rw [Function.update_of_ne different, Function.update_of_ne different]
    · intro change issued
      rw [site_own]
      exact .inl issued
    · intro change issued
      rw [site_own] at issued
      rcases issued with earlier | new
      · exact .inl earlier
      · exact .inr (done.2.1 change new)
    · rw [site_own]
      exact done.2.2
    · intro change accepted
      rw [site_own]
      exact accepted

theorem Sound.own (sound : cluster.Sound config horizon)
    (linked : (config home).peerCount ≠ 0)
    (proper : cluster.Proper horizon (.own home event)) :
    (cluster.step (.own home event)).Sound config horizon := by
  have allowed : Own horizon (cluster.node home) event := proper.allowed
  have steady := Db.steady_own allowed
  rcases sound.own_moves linked proper with ⟨done, moves⟩
  have stepped : (cluster.step (.own home event)).node home =
      (cluster.node home).step event := Function.update_self home _ cluster.node
  apply sound.moved
  · intro other different
    exact Function.update_of_ne different _ cluster.node
  · rw [stepped]
    exact (sound.sane home).stepped event
  · exact moves
  · apply sound.meshed.level moves done
    · intro change accepted
      rw [site_own] at accepted
      exact .inl accepted
    · rw [site_own]
      exact steady.watermark
  · left
    rw [stepped, steady.frontiers]
    exact sound.heard home

end Own

section Relay

variable {source target : ι} {change : Change} {call : Call}

theorem node_relay (cluster : Cluster ι) (source target : ι) (change : Change) (call : Call) :
    (cluster.step (.relay source target change call)).node target =
      ((cluster.node target).execute call).1 :=
  Function.update_self target _ cluster.node

theorem site_relay_accepted (cluster : Cluster ι) (source : ι) (change : Change)
    (replied : ((cluster.node target).execute call).2.head? = some 43) :
    (cluster.step (.relay source target change call)).site target =
      { cluster.site target with
        node := ((cluster.node target).execute call).1.node
        accepted := insert change {change | change ∈ cluster.accepted target} } := by
  have accepted : {other | other ∈ change :: cluster.accepted target} =
      insert change {change | change ∈ cluster.accepted target} := by
    ext other
    exact List.mem_cons
  unfold site step
  dsimp only
  rw [if_pos replied, Function.update_self, Function.update_self, accepted]

theorem site_relay_refused (cluster : Cluster ι) (source : ι) (change : Change)
    (replied : ((cluster.node target).execute call).2.head? ≠ some 43) :
    (cluster.step (.relay source target change call)).site target =
      { cluster.site target with node := ((cluster.node target).execute call).1.node } := by
  unfold site step
  dsimp only
  rw [if_neg replied, Function.update_self]

/-- A delivery is answered with success, and then the change has been offered, or nothing
changes. -/
theorem Sound.delivered (sound : cluster.Sound config horizon)
    (ids : Function.Injective fun home => (config home).nodeId)
    (linked : (config target).peerCount ≠ 0)
    (proper : cluster.Proper horizon (.relay source target change call)) :
    let after := cluster.step (.relay source target change call)
    (after.site target).Sound (config target) horizon ∧
      (after.site target).issued = (cluster.site target).issued ∧
      (after.site target).node.frontier = (cluster.site target).node.frontier ∧
      ((after.site target).accepted = (cluster.site target).accepted ∨
        (after.site target).accepted = insert change (cluster.site target).accepted) := by
  have allowed : cluster.Relayed source target change call := proper.allowed
  have sane := sound.sane target
  have here := sound.meshed.sound target
  have there := sound.meshed.sound source
  have member : change ∈ (cluster.site source).issued := allowed.issued
  rcases Db.node_beginCommand sane call with ⟨log, begun⟩
  have started := here.rewritten log
  by_cases replied : ((cluster.node target).execute call).2.head? = some 43
  · rcases execute_command sane allowed.portable allowed.args allowed.selected
      allowed.listening replied with ⟨record, _, single, node⟩
    rw [begun, sane.config] at node
    dsimp only
    rw [site_relay_accepted cluster source change replied, node]
    refine ⟨?_, rfl, Site.offer_frontier _ _ _ _ _, .inr rfl⟩
    apply started.offer linked proper.before single (there.lasts change (.inl member))
    · intro reached
      exact .inr (sound.meshed.exact target source allowed.different change member reached)
    · intro other known same version
      have issued : other ∈ (cluster.site source).issued :=
        sound.meshed.same_source ids member known version
      exact there.distinct other (.inl issued) change (.inl member) same version
  · have node := Db.execute_refused sane allowed.args allowed.listening replied
    rw [begun] at node
    dsimp only
    rw [site_relay_refused cluster source change replied, node]
    exact ⟨started, rfl, rfl, .inl rfl⟩

theorem Sound.relay_moves (sound : cluster.Sound config horizon)
    (ids : Function.Injective fun home => (config home).nodeId)
    (linked : (config target).peerCount ≠ 0)
    (proper : cluster.Proper horizon (.relay source target change call)) :
    Moves cluster.site (cluster.step (.relay source target change call)).site target := by
  rcases sound.delivered ids linked proper with ⟨_, issued, frontier, accepted⟩
  constructor
  · intro other different
    unfold site step
    dsimp only
    rw [Function.update_of_ne different]
    by_cases accepted : List.head? ((cluster.node target).execute call).2 = some 43
    · rw [if_pos accepted]
      rw [Function.update_of_ne different]
    · rw [if_neg accepted]
  · intro other member
    rw [issued]
    exact member
  · intro other member
    rw [issued] at member
    exact .inl member
  · exact frontier.symm.le
  · intro other member
    rcases accepted with same | grown
    · rw [same]
      exact member
    · rw [grown]
      exact Set.mem_insert_of_mem change member

theorem Sound.relay (sound : cluster.Sound config horizon)
    (ids : Function.Injective fun home => (config home).nodeId)
    (linked : (config target).peerCount ≠ 0)
    (proper : cluster.Proper horizon (.relay source target change call)) :
    (cluster.step (.relay source target change call)).Sound config horizon := by
  have allowed : cluster.Relayed source target change call := proper.allowed
  have steady : Db.Steady (cluster.node target) ((cluster.node target).execute call).1 :=
    Db.steady_relayed allowed.args
  rcases sound.delivered ids linked proper with ⟨done, _, _, accepted⟩
  have moves := sound.relay_moves ids linked proper
  have stepped := node_relay cluster source target change call
  have watermark : ((cluster.step (.relay source target change call)).site
      target).node.watermark = (cluster.site target).node.watermark := by
    change ((cluster.step (.relay source target change call)).node target).watermark = _
    rw [stepped]
    exact steady.watermark
  apply sound.moved
  · intro other different
    exact Function.update_of_ne different _ cluster.node
  · rw [stepped]
    exact (sound.sane target).executed call
  · exact moves
  · apply sound.meshed.level moves done
    · intro other member
      rcases accepted with same | grown
      · rw [same] at member
        exact .inl member
      · rw [grown] at member
        rcases Set.mem_insert_iff.mp member with equal | earlier
        · rw [equal]
          exact .inr ⟨source, allowed.different, allowed.issued⟩
        · exact .inl earlier
    · exact watermark
  · left
    rw [stepped, steady.frontiers]
    exact sound.heard target

end Relay

section Announce

variable {source target : ι} {frontier : Nat} {call : Call}

theorem site_announce (cluster : Cluster ι) (source target : ι) (frontier : Nat)
    (call : Call) :
    (cluster.step (.announce source target frontier call)).site target =
      { cluster.site target with node := ((cluster.node target).execute call).1.node } := by
  unfold site step
  dsimp only
  rw [Function.update_self]

/-- A collection of a node that has heard all others raises its watermark to a frontier
that each of them has reached. -/
theorem watermark_collected [Fintype ι] (mesh : Mesh config) {mid : Db} {site : ι → Site}
    (heard : HeardFrom config site home mid.frontiers) (same : mid.config = config home)
    (before : ∀ other, other ≠ home → mid.watermark ≤ (site other).node.frontier ∧
      ∀ change ∈ (site other).issued, change.version.ts ≤ mid.watermark →
        change ∈ (site home).accepted) :
    ∀ other, other ≠ home → mid.collectTombstones.watermark ≤ (site other).node.frontier ∧
      ∀ change ∈ (site other).issued,
        change.version.ts ≤ mid.collectTombstones.watermark →
          change ∈ (site home).accepted := by
  rcases Db.collectTombstones_spec mid with unchanged | ⟨low, _, _, collects, collected, _⟩
  · rw [unchanged]
    exact before
  · rw [collected]
    intro other different
    have enough : Fintype.card ι ≤ (mid.frontiers.toPairs.filter fun entry =>
        entry.1 ≠ (config home).nodeId).length + 1 := by
      have count := collects.heard
      unfold Db.heardFrontiers at count
      rw [List.length_map, same] at count
      rw [← mesh.peers home]
      omega
    rcases heard.everyone mesh.ids enough different with ⟨reached, listed⟩
    have low_le : low ≤ reached := by
      apply collects.below
      unfold Db.heardFrontiers
      rw [same]
      exact List.mem_map_of_mem listed
    have found := (List.mem_filter.mp listed).1
    rw [FiniteMap.mem_toPairs] at found
    rcases heard _ reached found with ⟨named, _, id, within, exact⟩
    have equal : named = other := mesh.ids id
    subst named
    constructor
    · exact low_le.trans within
    · intro change issued covered
      exact exact change issued (covered.trans low_le)

theorem Sound.announce_moves (sound : cluster.Sound config horizon)
    (proper : cluster.Proper horizon (.announce source target frontier call)) :
    ((cluster.step (.announce source target frontier call)).site target).Sound (config target)
        horizon ∧
      Moves cluster.site (cluster.step (.announce source target frontier call)).site
        target := by
  have allowed : cluster.Announces source target frontier call := proper.allowed
  rcases Db.execute_announce (sound.sane target) allowed.tells with
    ⟨log, mid, steps, logged, _⟩
  have quiet := ((sound.meshed.sound target).rewritten log).quiet proper.before steps logged
  constructor
  · rw [site_announce]
    exact quiet.1
  · constructor
    · intro other different
      unfold site step
      dsimp only
      rw [Function.update_of_ne different]
    · intro change issued
      rw [site_announce]
      exact issued
    · intro change issued
      rw [site_announce] at issued
      exact .inl issued
    · rw [site_announce]
      exact quiet.2
    · intro change accepted
      rw [site_announce]
      exact accepted

theorem Sound.announce [Fintype ι] (sound : cluster.Sound config horizon)
    (mesh : Mesh config)
    (proper : cluster.Proper horizon (.announce source target frontier call)) :
    (cluster.step (.announce source target frontier call)).Sound config horizon := by
  have allowed : cluster.Announces source target frontier call := proper.allowed
  have sane := sound.sane target
  have tells := allowed.tells
  rw [(sound.sane source).config] at tells
  rcases Db.execute_announce sane tells with ⟨log, mid, _, _, announced, done⟩
  rcases sound.announce_moves proper with ⟨moved, moves⟩
  have stepped : (cluster.step (.announce source target frontier call)).node target =
      ((cluster.node target).execute call).1 := Function.update_self target _ cluster.node
  have heard : HeardFrom config cluster.site target mid.frontiers := by
    rw [announced.frontiers]
    apply (sound.heard target).entered mesh.ids allowed.different
    · exact allowed.published
    · exact allowed.behind
  apply sound.moved
  · intro other different
    exact Function.update_of_ne different _ cluster.node
  · rw [stepped]
    exact sane.executed call
  · exact moves
  · apply sound.meshed.moved moves
    · exact moved
    · intro change accepted
      rw [site_announce] at accepted
      exact .inl accepted
    · rw [site_announce, done]
      apply watermark_collected mesh heard (announced.config.trans sane.config)
      rw [announced.watermark]
      intro other different
      constructor
      · exact sound.meshed.below target other different
      · exact sound.meshed.exact target other different
  · left
    rw [stepped, done, Db.frontiers_collectTombstones]
    exact heard

end Announce

/-! ## Runs -/

theorem Sound.step [Fintype ι] (sound : cluster.Sound config horizon) (mesh : Mesh config)
    {move : Move ι} (proper : cluster.Proper horizon move) :
    (cluster.step move).Sound config horizon := by
  cases move with
  | own home event => exact sound.own (mesh.linked home) proper
  | relay source target change call => exact sound.relay mesh.ids (mesh.linked target) proper
  | announce source target frontier call => exact sound.announce mesh proper

theorem Sound.moves [Fintype ι] (sound : cluster.Sound config horizon) (mesh : Mesh config)
    {move : Move ι} (proper : cluster.Proper horizon move) :
    ∃ home, Moves cluster.site (cluster.step move).site home := by
  cases move with
  | own home event => exact ⟨home, (sound.own_moves (mesh.linked home) proper).2⟩
  | relay source target change call =>
      exact ⟨target, sound.relay_moves mesh.ids (mesh.linked target) proper⟩
  | announce source target frontier call =>
      exact ⟨target, (sound.announce_moves proper).2⟩

theorem Sound.run [Fintype ι] (sound : cluster.Sound config horizon) (mesh : Mesh config)
    {moves : List (Move ι)} (proper : Runs.Always Cluster.step (Proper horizon) cluster moves) :
    (cluster.run moves).Sound config horizon := by
  induction moves generalizing cluster with
  | nil => exact sound
  | cons move rest induction =>
      have both := (Runs.always_cons move rest).mp proper
      exact induction (sound.step mesh both.1) both.2

/-- What a node issues later is above the frontier that it has now. -/
theorem Sound.issued_later [Fintype ι] (sound : cluster.Sound config horizon)
    (mesh : Mesh config) {moves : List (Move ι)}
    (proper : Runs.Always Cluster.step (Proper horizon) cluster moves) (other : ι) :
    (cluster.site other).node.frontier ≤ ((cluster.run moves).site other).node.frontier ∧
      ∀ change ∈ ((cluster.run moves).site other).issued,
        change ∈ (cluster.site other).issued ∨
          (cluster.site other).node.frontier < change.version.ts := by
  induction moves generalizing cluster with
  | nil => exact ⟨le_rfl, fun change issued => .inl issued⟩
  | cons move rest induction =>
      have both := (Runs.always_cons move rest).mp proper
      rcases sound.moves mesh both.1 with ⟨home, moves⟩
      have rises := moves.frontier_rises other
      have later := induction (sound.step mesh both.1) both.2
      constructor
      · exact rises.trans later.1
      · intro change issued
        rcases later.2 change issued with earlier | above
        · exact moves.issued_fresh other change earlier
        · exact .inr (rises.trans_lt above)

/-- What every node has accepted of the others is what they have issued. -/
theorem Sound.known_delivered (sound : cluster.Sound config horizon)
    (delivered : ∀ source target, source ≠ target →
      ∀ change ∈ cluster.issued source, change ∈ cluster.accepted target) (home : ι) :
    cluster.known home = {change | ∃ source, change ∈ cluster.issued source} := by
  ext change
  constructor
  · intro known
    rcases known with issued | accepted
    · exact ⟨home, issued⟩
    · rcases sound.meshed.origin home change accepted with ⟨source, _, issued⟩
      exact ⟨source, issued⟩
  · intro issued
    rcases issued with ⟨source, issued⟩
    by_cases here : source = home
    · subst source
      exact .inl issued
    · exact .inr (delivered source home here change issued)

/-! ## Two nodes -/

def pairConfig (home : Bool) : Config :=
  { nodeId := if home then 2 else 1, peerCount := 1 }

def pairStart : Cluster Bool :=
  start pairConfig fun _ => 1750000000000

/-- What the first node writes. -/
def pairChange : Change :=
  .put (Db.defaultRoom, ascii "k")
    { value := ascii "v", timestampMs := 1750000001000 * 2 ^ 16, nodeId := 1 }

/-- The first node serves a client and delivers the change. -/
def pairWrites : List (Move Bool) :=
  [.own false (clientCall 1750000001000 [ascii "SET", ascii "k", ascii "v"]),
    .relay false true pairChange
      { clientFd := 7, args := pairChange.command, now := 1750000001000 }]

/-- Each node tells the other its frontier. -/
def pairAnnounces : List (Move Bool) :=
  [.announce true false (1750000000000 * 2 ^ 16)
      { clientFd := 7
        args := [ascii "REPLFRONTIER", ascii "2", decimal (1750000000000 * 2 ^ 16)]
        now := 1750000002000 },
    .announce false true (1750000002000 * 2 ^ 16)
      { clientFd := 7
        args := [ascii "REPLFRONTIER", ascii "1", decimal (1750000002000 * 2 ^ 16)]
        now := 1750000002000 }]

theorem mesh_pair : Mesh pairConfig := by
  constructor
  · intro left right same
    cases left <;> cases right <;> first | rfl | cases same
  · decide
  · intro home
    cases home <;> rfl

theorem issued_pair : (pairStart.run pairWrites).issued false = [pairChange] ∧
    (pairStart.run pairWrites).issued true = [] ∧
    (pairStart.run pairWrites).accepted true = [pairChange] := by
  decide +kernel

theorem proper_pairWrites :
    ProperRun pairConfig (fun _ => 1750000000000) 1750000009000 pairWrites := by
  have appended : (pairStart.node false).appendedBy
      (clientCall 1750000001000 [ascii "SET", ascii "k", ascii "v"]) =
      [{ room := Db.defaultRoom, args := [ascii "SET", ascii "k", ascii "v"]
         timestampMs := 1750000001000 * 2 ^ 16, nodeId := 1 }] := by
    decide +kernel
  refine ⟨fun _ => by decide, ?_⟩
  change Runs.Always Cluster.step _ pairStart pairWrites
  simp only [pairWrites, Runs.always_cons]
  refine ⟨⟨by decide, by decide, by decide +kernel, ?_⟩,
    ⟨by decide, by decide, by decide +kernel, ?_⟩, Runs.always_nil⟩
  · refine ⟨?_, by decide +kernel, ?_⟩
    · intro first head
      cases head
      decide
    · intro record member
      change record ∈ (pairStart.node false).appendedBy
        (clientCall 1750000001000 [ascii "SET", ascii "k", ascii "v"]) at member
      rw [appended, List.mem_singleton] at member
      subst member
      constructor
      · decide +kernel
      · intro place held put
        cases List.mem_singleton.mp put
        rfl
  · constructor
    · decide
    · decide +kernel
    · constructor
      · decide +kernel
      · decide +kernel
      · decide
      · intro place record put
        cases put
        decide
    · rfl
    · decide +kernel
    · rfl

theorem proper_pair :
    ProperRun pairConfig (fun _ => 1750000000000) 1750000009000
      (pairWrites ++ pairAnnounces) := by
  refine ⟨fun _ => by decide, ?_⟩
  rw [Runs.always_append]
  refine ⟨proper_pairWrites.along, ?_⟩
  change Runs.Always Cluster.step _ (pairStart.run pairWrites) pairAnnounces
  have listed := issued_pair
  simp only [pairAnnounces, Runs.always_cons]
  refine ⟨⟨by decide, by decide, by decide +kernel, ?_⟩,
    ⟨by decide, by decide, by decide +kernel, ?_⟩, Runs.always_nil⟩
  · constructor
    · decide
    · decide +kernel
    · decide +kernel
    · intro change issued
      rw [listed.2.1] at issued
      cases issued
  · constructor
    · decide
    · decide +kernel
    · decide +kernel
    · intro change issued _
      change change ∈ (pairStart.run pairWrites).issued false at issued
      rw [listed.1] at issued
      change change ∈ (pairStart.run pairWrites).accepted true
      rw [listed.2.2]
      exact issued

/-! ## The results -/

variable [Fintype ι]

/-- Every node shows the newest change that it knows of every key. -/
theorem newest_change_shown (mesh : Mesh config) (now : ι → Nat) {moves : List (Move ι)}
    (proper : ProperRun config now horizon moves) (home : ι) :
    Shows Change.place Change.version Change.result
      (((start config now).run moves).known home)
      (((start config now).run moves).node home).held := by
  have sound := ((sound_start config now horizon).run mesh proper.along).meshed.sound home
  constructor
  · intro change newest
    exact (sound.reflects change.place).result sound.distinct newest rfl
  · intro place untouched
    exact (sound.reflects place).untouched untouched

theorem newest_change_shown_pair :
    Shows Change.place Change.version Change.result
      ((pairStart.run (pairWrites ++ pairAnnounces)).known true)
      ((pairStart.run (pairWrites ++ pairAnnounces)).node true).held :=
  newest_change_shown mesh_pair (fun _ => 1750000000000) proper_pair true

/-- Once every change has been accepted by every other node, all nodes hold the same. -/
theorem cluster_converges (mesh : Mesh config) (now : ι → Nat) {moves : List (Move ι)}
    (proper : ProperRun config now horizon moves)
    (delivered : ∀ source target, source ≠ target →
      ∀ change ∈ ((start config now).run moves).issued source,
        change ∈ ((start config now).run moves).accepted target) (left right : ι) :
    (((start config now).run moves).node left).held =
      (((start config now).run moves).node right).held := by
  have sound := (sound_start config now horizon).run mesh proper.along
  have same : ((start config now).run moves).known right =
      ((start config now).run moves).known left := by
    rw [sound.known_delivered delivered right, sound.known_delivered delivered left]
  have first := newest_change_shown mesh now proper left
  have second := newest_change_shown mesh now proper right
  rw [same] at second
  exact first.agree (finite_known _ left) second

theorem cluster_converges_pair :
    ((pairStart.run pairWrites).node false).held =
      ((pairStart.run pairWrites).node true).held := by
  apply cluster_converges mesh_pair (fun _ => 1750000000000) proper_pairWrites
  intro source target different change issued
  change change ∈ (pairStart.run pairWrites).issued source at issued
  change change ∈ (pairStart.run pairWrites).accepted target
  cases source with
  | true =>
      rw [issued_pair.2.1] at issued
      cases issued
  | false =>
      cases target with
      | false => exact absurd rfl different
      | true =>
          rw [issued_pair.1] at issued
          rw [issued_pair.2.2]
          exact issued

/-- A node that forgets a tombstone has accepted everything that could still fall below
it: what another node has issued, or ever will issue, at or below the watermark. -/
theorem watermark_exact (mesh : Mesh config) (now : ι → Nat) {front back : List (Move ι)}
    (proper : ProperRun config now horizon (front ++ back))
    {home other : ι} (different : other ≠ home) {change : Change}
    (issued : change ∈ ((start config now).run (front ++ back)).issued other)
    (reached : change.version.ts ≤ (((start config now).run front).node home).watermark) :
    change ∈ ((start config now).run front).accepted home := by
  have parts := (Runs.always_append front back).mp proper.along
  have sound := (sound_start config now horizon).run mesh parts.1
  have later := (sound.issued_later mesh parts.2 other).2
  unfold run at issued
  rw [List.foldl_append] at issued
  rcases later change issued with earlier | above
  · exact sound.meshed.exact home other different change earlier reached
  · have covered := sound.meshed.below home other different
    change ((((start config now).run front).node home).watermark ≤ _) at covered
    omega

theorem watermark_exact_pair :
    pairChange ∈ (pairStart.run (pairWrites ++ pairAnnounces)).accepted true := by
  have proper : ProperRun pairConfig (fun _ => 1750000000000) 1750000009000
      ((pairWrites ++ pairAnnounces) ++ []) := by
    rw [List.append_nil]
    exact proper_pair
  have issued : pairChange ∈
      (pairStart.run ((pairWrites ++ pairAnnounces) ++ [])).issued false := by
    decide +kernel
  have reached : pairChange.version.ts ≤
      ((pairStart.run (pairWrites ++ pairAnnounces)).node true).watermark := by
    decide +kernel
  exact watermark_exact mesh_pair (fun _ => 1750000000000) proper Bool.false_ne_true issued
    reached

end Cluster

end SomniumDB
