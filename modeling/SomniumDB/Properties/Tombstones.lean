import Mathlib.Data.List.Dedup
import Mathlib.Data.List.Induction
import Mathlib.Order.Bounds.Basic
import SomniumDB.Abstract.Graves
import SomniumDB.Abstract.Origin
import SomniumDB.Core.Runs

/-! # The tombstones of a node

From the start of the process, through the replay of its log and whatever happens to it
afterwards: every tombstone is above the watermark, no room has an empty map of them,
the figure shown is their number, and without peers there are none. The watermark only
rises, to the lowest of the frontiers that enough other nodes have announced. -/

namespace SomniumDB

open Bytes FsUtil

/-- What happens to a node within the life of one process, the replay of its log included. -/
inductive Act
  | replay (now : Nat) (record : AofRecord)
  /-- The constructor ends: the first frontier is drawn. -/
  | started (now : Nat)
  | occurrence (occurrence : Occurrence) (inProcess : occurrence.InProcess)

def Act.announces : Act → Option (Nat × Nat)
  | .occurrence (.event (.command call)) _ => call.announces
  | _ => none

/-- The nodes other than this one that have announced a frontier. -/
def heardNodes (config : Config) (announced : List (Nat × Nat)) : List Nat :=
  ((announced.map Prod.fst).filter (· ≠ config.nodeId)).dedup

/-- The highest frontier that a node has announced. -/
def highest (announced : List (Nat × Nat)) (node : Nat) : Nat :=
  ((announced.filter fun entry => entry.1 = node).map Prod.snd).foldl max 0

theorem mem_heardNodes {config : Config} {announced : List (Nat × Nat)} {node : Nat} :
    node ∈ heardNodes config announced ↔
      node ∈ announced.map Prod.fst ∧ node ≠ config.nodeId := by
  unfold heardNodes
  rw [List.mem_dedup, List.mem_filter, decide_eq_true_iff]

theorem highest_append (announced : List (Nat × Nat)) (from_ frontier node : Nat) :
    highest (announced ++ [(from_, frontier)]) node =
      if node = from_ then max (highest announced node) frontier
      else highest announced node := by
  unfold highest
  by_cases same : node = from_
  · subst same
    simp [List.filter_append]
  · simp [List.filter_append, same, Ne.symm same]

theorem highest_of_not_mem {announced : List (Nat × Nat)} {node : Nat}
    (silent : node ∉ announced.map Prod.fst) : highest announced node = 0 := by
  have none : (announced.filter fun entry => entry.1 = node) = [] := by
    rw [List.filter_eq_nil_iff]
    intro entry member equal
    exact silent (of_decide_eq_true equal ▸ List.mem_map_of_mem member)
  rw [highest, none]
  rfl

theorem highest_le {announced : List (Nat × Nat)} {bound : Nat}
    (bounded : ∀ entry ∈ announced, entry.2 ≤ bound) (node : Nat) :
    highest announced node ≤ bound := by
  induction announced using List.reverseRecOn with
  | nil => exact Nat.zero_le bound
  | append_singleton earlier entry induction =>
      have before := induction fun other member => bounded other (List.mem_append_left _ member)
      have last := bounded entry (List.mem_append_right _ (List.mem_singleton_self entry))
      rw [highest_append earlier entry.1 entry.2 node]
      by_cases same : node = entry.1
      · rw [if_pos same]
        exact max_le before last
      · rw [if_neg same]
        exact before

namespace Db

/-- The last step of the constructor. -/
def drawFrontier (db : Db) (now : Nat) : Db :=
  let fresh := Hlc.next db.clock now 0
  { db with frontier := fresh, clock := fresh }

def act (db : Db) : Act → Db
  | .replay now record => replayRecord now db record
  | .started now => db.drawFrontier now
  | .occurrence occurrence _ => db.occur occurrence

/-- A process started on these files. -/
def live (config : Config) (aof : List AofRecord)
    (snapshots : FiniteMap Bytes (FiniteMap Bytes Record)) (acts : List Act) : Db :=
  acts.foldl act { config, aof, snapshots }

/-- Recovery is the first part of a life. -/
theorem recover_eq_live (config : Config) (aof : List AofRecord)
    (snapshots : FiniteMap Bytes (FiniteMap Bytes Record)) (now : Nat) :
    recover config aof snapshots now =
      live config aof snapshots (aof.map (.replay now) ++ [.started now]) := by
  unfold live
  rw [List.foldl_append, List.foldl_map]
  rfl

/-! ## What every state has -/

/-- The tombstones are as they should be. -/
structure Buried (db : Db) : Prop where
  above : ∀ name key version, db.findTomb name key = some version →
    db.watermark < version.ts
  occupied : db.tombstones.Occupied
  counted : db.metrics.tombstones = db.tombstones.size
  peerless : db.config.peerCount = 0 → db.tombstones = ∅

variable {db after : Db}

theorem Buried.same (buried : db.Buried) (config : after.config = db.config)
    (tombstones : after.tombstones = db.tombstones) (watermark : after.watermark = db.watermark)
    (count : after.metrics.tombstones = db.metrics.tombstones) : after.Buried where
  above name key version found := by
    rw [findTomb, tombstones] at found
    rw [watermark]
    exact buried.above name key version found
  occupied := by
    rw [tombstones]
    exact buried.occupied
  counted := by
    rw [tombstones, count]
    exact buried.counted
  peerless none := by
    rw [tombstones]
    exact buried.peerless (config ▸ none)

theorem Buried.undisturbed (buried : db.Buried) (undisturbed : Undisturbed db after) :
    after.Buried :=
  buried.same undisturbed.config undisturbed.tombstones undisturbed.watermark undisturbed.count

theorem Buried.setTomb (buried : db.Buried) (name key : Bytes) (version : Version) :
    (db.setTomb name key version).Buried := by
  unfold Db.setTomb
  by_cases alone : db.config.peerCount = 0 ∨ version.ts ≤ db.watermark
  · rw [if_pos alone]
    exact buried
  · rw [if_neg alone]
    simp only [not_or, Nat.not_le] at alone
    have above : ∀ stored : Version, db.watermark < stored.ts → ∀ other within found,
        (db.tombstones.set name key stored).find other within = some found →
          db.watermark < found.ts := by
      intro stored high other within found present
      rw [NestedMap.find_set] at present
      by_cases here : other = name ∧ within = key
      · rw [if_pos here] at present
        exact Option.some.inj present ▸ high
      · rw [if_neg here] at present
        exact buried.above other within found present
    have size := NestedMap.size_set db.tombstones name key
    cases absent : db.findTomb name key with
    | none =>
        have absent : db.tombstones.find name key = none := absent
        refine ⟨above version alone.2, buried.occupied.set name key version, ?_,
          fun none => absurd none alone.1⟩
        rw [size, absent, buried.counted]
        rfl
    | some stored =>
        have absent : db.tombstones.find name key = some stored := absent
        refine ⟨above (max stored version) ?_, buried.occupied.set name key _, ?_,
          fun none => absurd none alone.1⟩
        · rcases max_choice stored version with left | right
          · rw [left]
            exact buried.above name key stored absent
          · rw [right]
            exact alone.2
        · rw [size, absent, buried.counted]
          exact (Int.add_zero _).symm

theorem Buried.clearTomb (buried : db.Buried) (name key : Bytes) :
    (db.clearTomb name key).Buried := by
  unfold Db.clearTomb
  cases present : db.findTomb name key with
  | none => exact buried
  | some stored =>
      have present : db.tombstones.find name key = some stored := present
      refine ⟨?_, buried.occupied.remove name key, ?_, ?_⟩
      · intro other within version found
        change (db.tombstones.remove name key).find other within = some version at found
        rw [NestedMap.find_remove] at found
        by_cases here : other = name ∧ within = key
        · rw [if_pos here] at found
          cases found
        · rw [if_neg here] at found
          exact buried.above other within version found
      · change db.metrics.tombstones - 1 = (db.tombstones.remove name key).size
        rw [NestedMap.size_remove, present, buried.counted]
        rfl
      · intro none
        rw [buried.peerless none, NestedMap.find_empty] at present
        cases present

theorem Buried.collectTombstones (buried : db.Buried) : db.collectTombstones.Buried := by
  unfold Db.collectTombstones
  dsimp only
  by_cases waits : db.config.peerCount = 0 ∨ db.heardFrontiers.length < db.config.peerCount ∨
      db.heardFrontiers.foldl min uint64Max ≤ db.watermark
  · rw [if_pos waits]
    exact buried
  · rw [if_neg waits]
    simp only [not_or] at waits
    refine ⟨?_, NestedMap.occupied_filter _ _, ?_, fun none => absurd none waits.1⟩
    · intro name key version found
      change NestedMap.find (NestedMap.filter _ db.tombstones) name key = some version at found
      rw [NestedMap.find_filter] at found
      exact of_decide_eq_true (Option.filter_eq_some_iff.mp found).2
    · dsimp only
      rw [NestedMap.length_toTriples, NestedMap.length_toTriples, buried.counted]
      omega

theorem Buried.marks (buried : db.Buried) (marks : Marks db after) : after.Buried := by
  induction marks with
  | refl => exact buried
  | tail _ step induction =>
      cases step with
      | aside undisturbed => exact induction.undisturbed undisturbed
      | mark name key version => exact induction.setTomb name key version

theorem Buried.clears (buried : db.Buried) (clears : Clears db after) : after.Buried := by
  induction clears with
  | refl => exact buried
  | tail _ step induction =>
      cases step with
      | aside undisturbed => exact induction.undisturbed undisturbed
      | clear name key => exact induction.clearTomb name key

theorem buried_start (config : Config) (aof : List AofRecord)
    (snapshots : FiniteMap Bytes (FiniteMap Bytes Record)) :
    ({ config, aof, snapshots } : Db).Buried where
  above := by rintro name key version ⟨⟩
  occupied := NestedMap.occupied_empty
  counted := rfl
  peerless _ := rfl

/-! ## What one act does -/

/-- A frontier has been entered in the table. -/
structure Announced (db mid : Db) (node frontier : Nat) : Prop where
  config : mid.config = db.config
  tombstones : mid.tombstones = db.tombstones
  watermark : mid.watermark = db.watermark
  count : mid.metrics.tombstones = db.metrics.tombstones
  frontiers : mid.frontiers =
    db.frontiers.insert node (max ((db.frontiers.lookup node).getD 0) frontier)

theorem announced_handleReplfrontier (db : Db) (now : Nat) (args : List Bytes) :
    (announcing args = none ∧ (db.handleReplfrontier now args).1 = db) ∨
      ∃ node frontier mid, announcing args = some (node, frontier) ∧
        Announced db mid node frontier ∧
        (db.handleReplfrontier now args).1 = mid.collectTombstones := by
  match args with
  | [] => exact .inl ⟨rfl, rfl⟩
  | [_] => exact .inl ⟨rfl, rfl⟩
  | [_, _] => exact .inl ⟨rfl, rfl⟩
  | _ :: _ :: _ :: _ :: _ => exact .inl ⟨rfl, rfl⟩
  | [_, nodeArg, frontierArg] =>
      unfold handleReplfrontier announcing
      dsimp only
      cases parseU64 nodeArg with
      | none => exact .inl ⟨rfl, rfl⟩
      | some node =>
          cases parseU64 frontierArg with
          | none => exact .inl ⟨rfl, rfl⟩
          | some frontier =>
              dsimp only
              by_cases large : uint32Max < node
              · rw [if_pos large, if_pos large]
                exact .inl ⟨rfl, rfl⟩
              · rw [if_neg large, if_neg large]
                refine .inr ⟨node, frontier, _, rfl, ?_, rfl⟩
                exact ⟨rfl, rfl, rfl, rfl, rfl⟩

/-- A command, by what it announces. -/
theorem execute_graves (db : Db) (call : Call) :
    (call.announces = none ∧ (Marks db (db.execute call).1 ∨ Clears db (db.execute call).1)) ∨
      ∃ node frontier mid, call.announces = some (node, frontier) ∧
        Announced db mid node frontier ∧ (db.execute call).1 = mid.collectTombstones := by
  unfold execute Call.announces
  cases args : call.args with
  | nil => exact .inl ⟨rfl, .inl .refl⟩
  | cons first rest =>
      have known := (undisturbed_beginCommand db call).trans
        (undisturbed_setClientRoom _ call.clientFd ((db.beginCommand call).clientRoom call.clientFd))
      dsimp only
      unfold dispatch
      dsimp only
      cases named : Command.named (upper first) with
      | elsewhere => exact .inl ⟨if_neg (by simp), .inl known.marks⟩
      | inRoom kind =>
          refine .inl ⟨if_neg (by simp), ?_⟩
          dsimp only
          by_cases listening : call.subscribed = true
          · rw [if_pos listening]
            exact .inl known.marks
          · rw [if_neg listening]
            rcases graves_executeInRoom _ call _ kind with marks | clears
            · exact .inl (known.marks.trans marks)
            · exact .inr (known.clears.trans clears)
      | connection kind =>
          have quiet : kind ≠ .replfrontier →
              (if Command.connection kind = .connection .replfrontier ∧ call.subscribed = false
                then announcing (first :: rest) else none) = none := by
            intro other
            exact if_neg fun both => other (Command.connection.inj both.1)
          have kept : ∀ {kind : ConnectionCommand}, kind ≠ .replfrontier →
              Marks db (((db.beginCommand call).setClientRoom call.clientFd
                ((db.beginCommand call).clientRoom call.clientFd)).runConnection call
                  (upper first) kind).1 :=
            fun other => (known.trans (undisturbed_runConnection _ call _ other)).marks
          cases kind with
          | replfrontier =>
              dsimp only
              cases subscribed : call.subscribed with
              | true => exact .inl ⟨if_neg (by simp), .inl known.marks⟩
              | false =>
                  rw [if_pos ⟨rfl, rfl⟩, if_neg Bool.false_ne_true]
                  unfold runConnection
                  dsimp only
                  rw [args]
                  rcases announced_handleReplfrontier ((db.beginCommand call).setClientRoom
                      call.clientFd ((db.beginCommand call).clientRoom call.clientFd)) call.now
                      (first :: rest) with ⟨silent, same⟩ | ⟨node, frontier, mid, tells, entered, done⟩
                  · rw [same]
                    exact .inl ⟨silent, .inl known.marks⟩
                  · refine .inr ⟨node, frontier, mid, tells, ?_, done⟩
                    refine ⟨entered.config.trans known.config,
                      entered.tombstones.trans known.tombstones,
                      entered.watermark.trans known.watermark, entered.count.trans known.count, ?_⟩
                    rw [entered.frontiers, known.frontiers]
          | ping => exact .inl ⟨quiet (by decide), .inl (kept (by decide))⟩
          | _ =>
              refine .inl ⟨quiet (by decide), .inl ?_⟩
              dsimp only
              split
              · exact known.marks
              · exact kept (by decide)

/-- An act either announces nothing, and then it marks keys or clears tombstones, or a
frontier is entered and the tombstones are collected. -/
theorem act_graves (db : Db) (act : Act) :
    (act.announces = none ∧ (Marks db (db.act act) ∨ Clears db (db.act act))) ∨
      ∃ node frontier mid, act.announces = some (node, frontier) ∧
        Announced db mid node frontier ∧ db.act act = mid.collectTombstones := by
  cases act with
  | replay now record => exact .inl ⟨rfl, .inl (marks_replayRecord db now record)⟩
  | started now => exact .inl ⟨rfl, .inl (Undisturbed.marks ⟨rfl, rfl, rfl, rfl, rfl⟩)⟩
  | occurrence occurrence inProcess =>
      cases occurrence with
      | snapshotFails name =>
          exact .inl ⟨rfl, .inl (undisturbed_hibernateFailed db name).marks⟩
      | event event =>
          cases event with
          | command call => exact execute_graves db call
          | cleanup now clientFd =>
              exact .inl ⟨rfl, .inl (Undisturbed.marks ⟨rfl, rfl, rfl, rfl, rfl⟩)⟩
          | cleanExpired now name =>
              exact .inl ⟨rfl, .inl (undisturbed_cleanExpiredKeys db now name).marks⟩
          | hibernateInactive now name =>
              exact .inl ⟨rfl, .inl (undisturbed_hibernateInactive db now name).marks⟩
          | childStep now => exact .inl ⟨rfl, .inl (undisturbed_childStep db now).marks⟩
          | childFail now =>
              exact .inl ⟨rfl, .inl (Undisturbed.marks ⟨rfl, rfl, rfl, rfl, rfl⟩)⟩
          | restart now => exact inProcess.elim

/-! ## Versions do not decrease -/

theorem Marks.raised (marks : Marks db after) {name key : Bytes} {old : Version}
    (found : db.findTomb name key = some old) :
    ∃ new, after.findTomb name key = some new ∧ old ≤ new := by
  induction marks with
  | refl => exact ⟨old, found, le_rfl⟩
  | @tail second third _ step induction =>
      rcases induction with ⟨middle, present, le⟩
      cases step with
      | aside undisturbed =>
          refine ⟨middle, ?_, le⟩
          rw [findTomb, undisturbed.tombstones]
          exact present
      | mark other within version =>
          unfold Db.setTomb
          by_cases alone : second.config.peerCount = 0 ∨ version.ts ≤ second.watermark
          · rw [if_pos alone]
            exact ⟨middle, present, le⟩
          · rw [if_neg alone]
            cases absent : second.findTomb other within with
            | none =>
                by_cases here : name = other ∧ key = within
                · rw [here.1, here.2, absent] at present
                  cases present
                · exact ⟨middle, ((NestedMap.find_set _ _ _ _ _ _).trans (if_neg here)).trans present, le⟩
            | some stored =>
                by_cases here : name = other ∧ key = within
                · rw [here.1, here.2, absent] at present
                  rcases Option.some.inj present with rfl
                  exact ⟨max stored version,
                    (NestedMap.find_set _ _ _ _ _ _).trans (if_pos here),
                    le.trans (le_max_left _ _)⟩
                · exact ⟨middle, ((NestedMap.find_set _ _ _ _ _ _).trans (if_neg here)).trans present, le⟩

theorem Clears.kept (clears : Clears db after) {name key : Bytes} {new : Version}
    (found : after.findTomb name key = some new) : db.findTomb name key = some new := by
  induction clears with
  | refl => exact found
  | @tail second third _ step induction =>
      apply induction
      cases step with
      | aside undisturbed =>
          rw [findTomb, undisturbed.tombstones] at found
          exact found
      | clear other within =>
          unfold Db.clearTomb at found
          cases foundHere : second.findTomb other within with
          | none =>
              simp only [foundHere] at found
              exact found
          | some _ =>
              simp only [foundHere] at found
              change (second.tombstones.remove other within).find name key = some new at found
              rw [NestedMap.find_remove] at found
              by_cases here : name = other ∧ key = within
              · rw [if_pos here] at found
                cases found
              · rw [if_neg here] at found
                exact found

theorem kept_collect {name key : Bytes} {new : Version}
    (found : db.collectTombstones.findTomb name key = some new) :
    db.findTomb name key = some new := by
  rcases collectTombstones_spec db with same | ⟨low, tombstones, metrics, _, equal, finds⟩
  · rw [same] at found
    exact found
  · rw [equal] at found
    have filtered := (finds name key).symm.trans found
    exact (Option.filter_eq_some_iff.mp filtered).1

/-! ## The watermark -/

/-- The table of frontiers is that of what has been announced. -/
def Heard (announced : List (Nat × Nat)) (db : Db) : Prop :=
  ∀ node frontier, db.frontiers.lookup node = some frontier ↔
    node ∈ announced.map Prod.fst ∧ frontier = highest announced node

theorem Heard.announced {announced : List (Nat × Nat)} {mid : Db} {node frontier : Nat}
    (heard : Heard announced db) (entered : Announced db mid node frontier) :
    Heard (announced ++ [(node, frontier)]) mid := by
  have known : (db.frontiers.lookup node).getD 0 = highest announced node := by
    cases found : db.frontiers.lookup node with
    | some old => exact ((heard node old).mp found).2
    | none =>
        refine (highest_of_not_mem fun member => ?_).symm
        cases found.symm.trans ((heard node _).mpr ⟨member, rfl⟩)
  intro other value
  rw [entered.frontiers, FiniteMap.lookup_insert_if, known, highest_append, List.map_append,
    List.mem_append]
  by_cases same : other = node
  · rw [if_pos same, if_pos same, same, Option.some.injEq]
    exact ⟨fun equal => ⟨.inr (List.mem_singleton_self node), equal.symm⟩,
      fun entry => entry.2.symm⟩
  · rw [if_neg same, if_neg same, heard other value]
    have absent : other ∉ [(node, frontier)].map Prod.fst := fun member =>
      same (List.mem_singleton.mp member)
    rw [or_iff_left absent]

/-- The watermark is the lowest frontier of the other nodes, of which there are enough. -/
structure Lowest (config : Config) (announced : List (Nat × Nat)) (watermark : Nat) : Prop where
  peers : config.peerCount ≠ 0
  enough : config.peerCount ≤ (heardNodes config announced).length
  least : IsLeast {frontier | ∃ node ∈ heardNodes config announced,
    frontier = highest announced node} watermark

theorem mem_heardPairs {announced : List (Nat × Nat)} (heard : Heard announced db)
    (node frontier : Nat) :
    (node, frontier) ∈ (db.frontiers.toPairs.filter fun entry => entry.1 ≠ db.config.nodeId) ↔
      node ∈ heardNodes db.config announced ∧ frontier = highest announced node := by
  rw [List.mem_filter, FiniteMap.mem_toPairs, heard node frontier, mem_heardNodes,
    decide_eq_true_iff]
  exact ⟨fun both => ⟨⟨both.1.1, both.2⟩, both.1.2⟩, fun both => ⟨⟨both.1.1, both.2⟩, both.1.2⟩⟩

theorem mem_heardFrontiers {announced : List (Nat × Nat)} (heard : Heard announced db)
    (frontier : Nat) :
    frontier ∈ db.heardFrontiers ↔
      ∃ node ∈ heardNodes db.config announced, frontier = highest announced node := by
  unfold heardFrontiers
  rw [List.mem_map]
  constructor
  · rintro ⟨⟨node, value⟩, member, rfl⟩
    exact ⟨node, (mem_heardPairs heard node value).mp member⟩
  · rintro ⟨node, member, equal⟩
    exact ⟨(node, frontier), (mem_heardPairs heard node frontier).mpr ⟨member, equal⟩, rfl⟩

theorem length_heardFrontiers {announced : List (Nat × Nat)} (heard : Heard announced db) :
    db.heardFrontiers.length = (heardNodes db.config announced).length := by
  have nodup : ((db.frontiers.toPairs.filter fun entry => entry.1 ≠ db.config.nodeId).map
      Prod.fst).Nodup :=
    db.frontiers.toPairs_nodup_keys.sublist (List.filter_sublist.map Prod.fst)
  have same : ((db.frontiers.toPairs.filter fun entry => entry.1 ≠ db.config.nodeId).map
      Prod.fst).Perm (heardNodes db.config announced) := by
    refine (List.perm_ext_iff_of_nodup nodup (List.nodup_dedup _)).mpr fun node => ?_
    rw [List.mem_map]
    constructor
    · rintro ⟨⟨_, frontier⟩, member, rfl⟩
      exact ((mem_heardPairs heard _ frontier).mp member).1
    · intro member
      exact ⟨(node, highest announced node), (mem_heardPairs heard node _).mpr ⟨member, rfl⟩, rfl⟩
  unfold heardFrontiers
  rw [List.length_map, ← same.length_eq, List.length_map]

/-- The least of some values below the start is one of them. -/
theorem foldl_min_mem {values : List Nat} {start : Nat} (below : ∀ value ∈ values, value ≤ start)
    (some : values ≠ []) : values.foldl min start ∈ values := by
  have reached : ∀ (values : List Nat) (start : Nat),
      values.foldl min start = start ∨ values.foldl min start ∈ values := by
    intro values
    induction values with
    | nil => exact fun start => .inl rfl
    | cons first rest induction =>
        intro start
        rcases induction (min start first) with same | member
        · rcases min_choice start first with left | right
          · exact .inl (same.trans left)
          · exact .inr (List.mem_cons.mpr (.inl (same.trans right)))
        · exact .inr (List.mem_cons_of_mem _ member)
  rcases reached values start with same | member
  · rcases List.exists_cons_of_ne_nil some with ⟨first, rest, rfl⟩
    have low := (foldl_min_le (first :: rest) start).2 first List.mem_cons_self
    rw [same] at low
    have equal : first = start := le_antisymm (below first List.mem_cons_self) low
    rw [same, ← equal]
    exact List.mem_cons_self
  · exact member

/-- Collecting leaves the watermark alone or raises it to the lowest frontier. -/
theorem watermark_collect {announced : List (Nat × Nat)} (heard : Heard announced db)
    (bounded : ∀ entry ∈ announced, entry.2 ≤ uint64Max) :
    db.collectTombstones.watermark = db.watermark ∨
      db.watermark < db.collectTombstones.watermark ∧
        Lowest db.config announced db.collectTombstones.watermark := by
  unfold collectTombstones
  dsimp only
  by_cases waits : db.config.peerCount = 0 ∨ db.heardFrontiers.length < db.config.peerCount ∨
      db.heardFrontiers.foldl min uint64Max ≤ db.watermark
  · rw [if_pos waits]
    exact .inl rfl
  · rw [if_neg waits]
    simp only [not_or, Nat.not_lt, Nat.not_le] at waits
    rcases waits with ⟨peers, enough, above⟩
    refine .inr ⟨above, peers, length_heardFrontiers heard ▸ enough, ?_, ?_⟩
    · apply (mem_heardFrontiers heard _).mp
      apply foldl_min_mem
      · intro frontier member
        rcases (mem_heardFrontiers heard frontier).mp member with ⟨node, _, rfl⟩
        exact highest_le bounded node
      · intro empty
        rw [empty] at enough
        exact peers (Nat.le_zero.mp enough)
    · intro frontier member
      exact (foldl_min_le db.heardFrontiers uint64Max).2 frontier
        ((mem_heardFrontiers heard frontier).mpr member)

/-! ## A life -/

/-- What commands and replayed records leave of the rest. -/
structure Steady (db after : Db) : Prop where
  config : after.config = db.config
  frontiers : after.frontiers = db.frontiers
  watermark : after.watermark = db.watermark

theorem Steady.refl : Steady db db :=
  ⟨rfl, rfl, rfl⟩

theorem Steady.trans {second third : Db} (left : Steady db second) (right : Steady second third) :
    Steady db third :=
  ⟨right.config.trans left.config, right.frontiers.trans left.frontiers,
    right.watermark.trans left.watermark⟩

theorem Undisturbed.steady (undisturbed : Undisturbed db after) : Steady db after :=
  ⟨undisturbed.config, undisturbed.frontiers, undisturbed.watermark⟩

theorem Marks.steady (marks : Marks db after) : Steady db after := by
  induction marks with
  | refl => exact .refl
  | tail _ step induction =>
      refine induction.trans ?_
      cases step with
      | aside undisturbed => exact undisturbed.steady
      | mark name key version =>
          unfold Db.setTomb
          split
          · exact .refl
          · split <;> exact ⟨rfl, rfl, rfl⟩

theorem Clears.steady (clears : Clears db after) : Steady db after := by
  induction clears with
  | refl => exact .refl
  | tail _ step induction =>
      refine induction.trans ?_
      cases step with
      | aside undisturbed => exact undisturbed.steady
      | clear name key =>
          unfold Db.clearTomb
          split
          · exact .refl
          · exact ⟨rfl, rfl, rfl⟩

/-- What may change from one state to the next. -/
structure Advances (config : Config) (announced : List (Nat × Nat)) (db after : Db) : Prop where
  /-- The version of a tombstone does not decrease while there is one. -/
  versions : ∀ name key old new, db.findTomb name key = some old →
    after.findTomb name key = some new → old ≤ new
  /-- The watermark rises, and only to the lowest frontier of enough nodes. -/
  watermark : after.watermark = db.watermark ∨
    db.watermark < after.watermark ∧ Lowest config announced after.watermark

/-- What every state of a life has. -/
structure Living (config : Config) (announced : List (Nat × Nat)) (db : Db) : Prop where
  config : db.config = config
  buried : db.Buried
  heard : Heard announced db

variable {config : Config} {announced : List (Nat × Nat)}

theorem config_collectTombstones (db : Db) : db.collectTombstones.config = db.config := by
  unfold Db.collectTombstones
  dsimp only
  by_cases waits : db.config.peerCount = 0 ∨ db.heardFrontiers.length < db.config.peerCount ∨
      db.heardFrontiers.foldl min uint64Max ≤ db.watermark
  · rw [if_pos waits]
  · rw [if_neg waits]

theorem frontiers_collectTombstones (db : Db) :
    db.collectTombstones.frontiers = db.frontiers := by
  unfold Db.collectTombstones
  dsimp only
  by_cases waits : db.config.peerCount = 0 ∨ db.heardFrontiers.length < db.config.peerCount ∨
      db.heardFrontiers.foldl min uint64Max ≤ db.watermark
  · rw [if_pos waits]
  · rw [if_neg waits]

theorem Living.steady (living : Living config announced db) (buried : after.Buried)
    (steady : Steady db after) : Living config announced after := by
  refine ⟨steady.config.trans living.config, buried, ?_⟩
  intro node frontier
  rw [steady.frontiers]
  exact living.heard node frontier

theorem announcing_le {args : List Bytes} {entry : Nat × Nat}
    (tells : announcing args = some entry) : entry.2 ≤ uint64Max := by
  unfold announcing at tells
  split at tells
  · split at tells
    · rename_i parsed
      split at tells
      · cases tells
      · rw [← Option.some.inj tells]
        exact parseU64_le parsed
    · cases tells
  · cases tells

theorem announces_le {act : Act} {entry : Nat × Nat} (tells : act.announces = some entry) :
    entry.2 ≤ uint64Max := by
  unfold Act.announces at tells
  split at tells
  · unfold Call.announces at tells
    split at tells
    · cases tells
    · split at tells
      · exact announcing_le tells
      · cases tells
  · cases tells

/-- One act. -/
theorem Living.acted (living : Living config announced db)
    (bounded : ∀ entry ∈ announced, entry.2 ≤ uint64Max) (act : Act) :
    Living config (announced ++ act.announces.toList) (db.act act) ∧
      Advances config (announced ++ act.announces.toList) db (db.act act) := by
  rcases act_graves db act with ⟨silent, marks | clears⟩ | ⟨node, frontier, mid, tells, entered, done⟩
  · rw [silent, Option.toList_none, List.append_nil]
    refine ⟨living.steady (living.buried.marks marks) marks.steady, ?_, .inl marks.steady.watermark⟩
    intro name key old new before later
    rcases marks.raised before with ⟨raised, found, le⟩
    exact Option.some.inj (found.symm.trans later) ▸ le
  · rw [silent, Option.toList_none, List.append_nil]
    refine ⟨living.steady (living.buried.clears clears) clears.steady, ?_,
      .inl clears.steady.watermark⟩
    intro name key old new before later
    exact (Option.some.inj (before.symm.trans (clears.kept later))).le
  · rw [tells, Option.toList_some, done]
    have heard := living.heard.announced entered
    have buried : mid.Buried :=
      living.buried.same entered.config entered.tombstones entered.watermark entered.count
    have sameConfig : mid.config = config := entered.config.trans living.config
    have within : ∀ entry ∈ announced ++ [(node, frontier)], entry.2 ≤ uint64Max := by
      intro entry member
      rcases List.mem_append.mp member with earlier | last
      · exact bounded entry earlier
      · rw [List.mem_singleton.mp last]
        exact announces_le tells
    refine ⟨⟨?_, buried.collectTombstones, ?_⟩, ?_, ?_⟩
    · exact (config_collectTombstones mid).trans sameConfig
    · intro other value
      rw [frontiers_collectTombstones mid]
      exact heard other value
    · intro name key old new before later
      have kept : mid.findTomb name key = some new := kept_collect later
      rw [findTomb, entered.tombstones] at kept
      exact (Option.some.inj (before.symm.trans kept)).le
    · rw [← sameConfig, ← entered.watermark]
      exact watermark_collect heard within

/-- What has been announced within a life. -/
def announcedBy (acts : List Act) : List (Nat × Nat) :=
  acts.flatMap fun act => act.announces.toList

theorem announcedBy_le (acts : List Act) : ∀ entry ∈ announcedBy acts, entry.2 ≤ uint64Max := by
  intro entry member
  rcases List.mem_flatMap.mp member with ⟨act, _, tells⟩
  exact announces_le (Option.mem_toList.mp tells)

theorem living_live (config : Config) (aof : List AofRecord)
    (snapshots : FiniteMap Bytes (FiniteMap Bytes Record)) (acts : List Act) :
    Living config (announcedBy acts) (live config aof snapshots acts) := by
  induction acts using List.reverseRecOn with
  | nil =>
      refine ⟨rfl, buried_start config aof snapshots, ?_⟩
      intro node frontier
      exact iff_of_false (by rintro ⟨⟩) fun entry => List.not_mem_nil entry.1
  | append_singleton made act induction =>
      unfold live announcedBy
      rw [List.foldl_append, List.flatMap_append, List.flatMap_singleton]
      exact (induction.acted (announcedBy_le made) act).1

/-- The tombstones of a node, from the start of its process on. -/
theorem tombstones_sound (config : Config) (aof : List AofRecord)
    (snapshots : FiniteMap Bytes (FiniteMap Bytes Record)) (made : List Act) (next : Act) :
    let db := live config aof snapshots made
    db.Buried ∧ Advances config (announcedBy (made ++ [next])) db (db.act next) := by
  have living := living_live config aof snapshots made
  refine ⟨living.buried, ?_⟩
  have acted := (living.acted (announcedBy_le made) next).2
  unfold announcedBy
  rw [List.flatMap_append, List.flatMap_singleton]
  exact acted

end Db

end SomniumDB
