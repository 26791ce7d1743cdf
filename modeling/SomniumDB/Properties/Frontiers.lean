import SomniumDB.Abstract.Fitting
import SomniumDB.Abstract.Guard

/-! # Frontiers and the node's own versions

The frontier that a node publishes says that every later write of its own has a
greater version. The clock keeps this for the versions it issues; a replicated
command may bring an older version under the node's own id, and a restart builds
the clock again from the log, where frontiers are not recorded. -/

namespace SomniumDB

open Bytes FsUtil

namespace Node

variable {config : Config} {now : Nat} {node after : Node}

/-- Frontiers are drawn from the clock, so they only advance. -/
theorem step_frontier (step : Step config now node after) (drawn : node.frontier ≤ node.clock) :
    node.frontier ≤ after.frontier ∧ after.frontier ≤ after.clock := by
  cases step with
  | own step =>
      cases step with
      | settle held settles => exact ⟨le_rfl, drawn⟩
      | issue record issued =>
          simp only [commit, applyAll_frontier]
          exact ⟨le_rfl, drawn.trans (le_max_left _ _)⟩
  | observe ts => exact ⟨le_rfl, drawn.trans (le_max_left _ _)⟩
  | receive record change received =>
      simp only [commit, applyAll_frontier]
      exact ⟨le_rfl, drawn.trans (le_max_left _ _)⟩
  | announce fresh above => exact ⟨drawn.trans above.le, le_rfl⟩
  | collect low above => exact ⟨le_rfl, drawn⟩

theorem steps_frontier (steps : Steps config now node after) (drawn : node.frontier ≤ node.clock) :
    node.frontier ≤ after.frontier ∧ after.frontier ≤ after.clock := by
  induction steps with
  | refl => exact ⟨le_rfl, drawn⟩
  | tail _ step induction =>
      rcases step_frontier step induction.2 with ⟨advanced, again⟩
      exact ⟨induction.1.trans advanced, again⟩

end Node

namespace Db

variable {config : Config} {db : Db}

/-- Between restarts the frontier only advances, within the clock. -/
theorem frontier_step (sane : Sane config db) {event : Event}
    (alive : ∀ now, event ≠ .restart now) (drawn : db.frontier ≤ db.clock) :
    db.frontier ≤ (db.step event).frontier ∧ (db.step event).frontier ≤ (db.step event).clock := by
  rcases step_evolves sane event alive with ⟨held, log, _, steps, _⟩
  exact Node.steps_frontier steps drawn

theorem frontier_recover (config : Config) (aof : List AofRecord)
    (snapshots : FiniteMap Bytes (FiniteMap Bytes Record)) (now : Nat) :
    (recover config aof snapshots now).frontier = (recover config aof snapshots now).clock := rfl

theorem drawn_run (sane : Sane config db) (drawn : db.frontier ≤ db.clock)
    (events : List Event) : (db.run events).frontier ≤ (db.run events).clock := by
  induction events generalizing db with
  | nil => exact drawn
  | cons event rest induction =>
      apply induction (sane.stepped event)
      by_cases restarts : ∃ now, event = .restart now
      · rcases restarts with ⟨now, rfl⟩
        exact (frontier_recover db.config db.aof db.snapshots now).le
      · exact (frontier_step sane (fun now equal => restarts ⟨now, equal⟩) drawn).2

theorem frontier_run (sane : Sane config db) (drawn : db.frontier ≤ db.clock)
    {events : List Event} (alive : ∀ event ∈ events, ∀ now, event ≠ .restart now) :
    db.frontier ≤ (db.run events).frontier := by
  induction events generalizing db with
  | nil => exact le_rfl
  | cons event rest induction =>
      rcases frontier_step sane (alive event List.mem_cons_self) drawn with ⟨advanced, again⟩
      exact advanced.trans (induction (sane.stepped event) again
        fun other member => alive other (List.mem_cons_of_mem _ member))

end Db

open Db

/-- In one process life of a node, whatever happened before it, as long as the clock does
not wrap around: every record that is appended under the node's own id after a frontier was
published has a greater version, if and only if no replicated command is applied that brings
a version of this node up to the frontier published last. -/
theorem own_records_above_frontier_iff (config : Config) (start : Nat)
    (history life : List Event) (alive : ∀ event ∈ life, ∀ now, event ≠ .restart now)
    (fits : FittingRun config start (history ++ life)) :
    (∀ before middle event rest, life = before ++ middle ++ event :: rest →
      ∀ earlier record later,
        ((fresh config start).run (history ++ before ++ middle)).appendedBy event =
            earlier ++ record :: later →
          record.nodeId = config.nodeId →
            ((fresh config start).run (history ++ before)).frontier <
              ((fresh config start).run (history ++ before ++ middle)).loggedTs event earlier
                record) ↔
    ∀ before call rest, life = before ++ .command call :: rest → ∀ key version,
      ((fresh config start).run (history ++ before)).Imports call key version →
        version.node = config.nodeId →
          ((fresh config start).run (history ++ before)).frontier < version.ts := by
  have sane := fun events => (sane_fresh config start).ran events
  have drawn := fun events => drawn_run (sane_fresh config start)
    (frontier_recover config [] ∅ start).le events
  constructor
  · intro above before call rest split key version imports own
    rcases appended_of_imports (sane (history ++ before)) imports with ⟨record, appends, same⟩
    subst version
    have logged := above before [] (.command call) rest (by rw [split, List.append_nil]) []
      record [] (by rw [List.append_nil]; exact appends) own
    rw [List.append_nil, loggedTs_of_imports imports] at logged
    exact logged
  · intro guarded before middle event rest split earlier record later appends own
    have inLife : ∀ other ∈ middle, other ∈ life := by
      intro other here
      rw [split]
      exact List.mem_append_left _ (List.mem_append_right _ here)
    have advanced := frontier_run (sane (history ++ before)) (drawn _)
      fun other here => alive other (inLife other here)
    rw [← run_append] at advanced
    have here : history ++ life = (history ++ before ++ middle) ++ event :: rest := by
      rw [split]
      simp only [List.append_assoc]
    rw [loggedTs_of_fits (sane _) (fits.fitting here) appends]
    apply advanced.trans_lt
    cases event with
    | command call =>
        have member : record ∈
            ((fresh config start).run (history ++ before ++ middle)).appended call := by
          change record ∈
            ((fresh config start).run (history ++ before ++ middle)).appendedBy (.command call)
          rw [appends]
          exact List.mem_append_right _ List.mem_cons_self
        rcases appended_cases (sane _) call member with issued | ⟨key, imports⟩
        · exact (drawn _).trans_lt issued.fresh
        · rw [List.append_assoc] at imports ⊢
          exact guarded (before ++ middle) call rest split key record.version imports own
    | _ => simp [appendedBy] at appends

/-- A client writes a key. -/
theorem own_records_above_frontier_sample :
    ((fresh {} 1750000000000).run ([] ++ [])).frontier <
      ((fresh {} 1750000000000).run ([] ++ [] ++ [])).loggedTs
        (clientCall 1750000001000 [ascii "SET", ascii "k", ascii "v"]) []
        { room := defaultRoom, args := [ascii "SET", ascii "k", ascii "v"]
          timestampMs := 1750000001000 * 2 ^ 16 } := by
  have fits : FittingRun {} 1750000000000
      ([] ++ [clientCall 1750000001000 [ascii "SET", ascii "k", ascii "v"]]) := by
    constructor
    · decide
    · simp only [List.nil_append, Runs.always_cons]
      exact ⟨by decide +kernel, Runs.always_nil⟩
  have alive : ∀ event ∈ [clientCall 1750000001000 [ascii "SET", ascii "k", ascii "v"]],
      ∀ now, event ≠ .restart now := by
    intro event member now
    rw [List.mem_singleton.mp member]
    exact fun equal => nomatch equal
  refine (own_records_above_frontier_iff {} 1750000000000 [] _ alive fits).mpr ?_ [] [] _ [] rfl
    [] _ [] (by decide +kernel) rfl
  intro before call rest split key version imports
  rcases List.cons_eq_append_iff.mp split with ⟨_, equal⟩ | ⟨_, _, equal⟩
  · cases equal
    have nothing : incoming [ascii "SET", ascii "k", ascii "v"] = none := by decide
    cases nothing.symm.trans imports.brings
  · simp at equal

/-- A merge under the node's own id, of a version that the frontier covers. -/
theorem merged_own_record_below_frontier :
    ∃ record ∈ (fresh {} 1750000000000).appendedBy
        (clientCall 1750000001000
          [ascii "CRDTMERGE", ascii "k", ascii "v", decimal (1750000000000 * 2 ^ 16), ascii "1"]),
      record.nodeId = 1 ∧ record.timestampMs ≤ (fresh {} 1750000000000).frontier := by
  refine ⟨{ room := defaultRoom
            args := [ascii "CRDTMERGE", ascii "k", ascii "v", decimal (1750000000000 * 2 ^ 16),
              ascii "1"]
            timestampMs := 1750000000000 * 2 ^ 16 }, ?_, rfl, ?_⟩
  · decide +kernel
  · decide +kernel

/-! ## Restarts -/

namespace Db

variable {config : Config} {db : Db}

/-- The wall clock or a logged version has reached what the node published, up
to the one tick that the first frontier after a restart adds. -/
def Covered (db : Db) (now : Nat) : Prop :=
  db.frontier ≤ now * 2 ^ 16 ∨
    ∃ change ∈ logReplayed db.aof, db.frontier ≤ change.version.ts + 1

/-- The commands by which a client of the node writes. -/
def localWrites : List Bytes :=
  [ascii "SET", ascii "MSET", ascii "EXPIRE", ascii "PEXPIRE", ascii "PERSIST", ascii "DEL"]

def LocalWrite (call : Call) : Prop :=
  ∃ first rest, call.args = first :: rest ∧ upper first ∈ localWrites

theorem LocalWrite.domestic {call : Call} (write : LocalWrite call) : Domestic call := by
  rcases write with ⟨first, rest, args, named⟩
  have foreign : ascii "CRDTMERGE" ∉ localWrites ∧ ascii "CRDTDEL" ∉ localWrites := by decide
  intro other head
  have same : first = other := by simpa [args] using head
  subst other
  constructor
  · intro merge
    exact foreign.1 (merge ▸ named)
  · intro delete
    exact foreign.2 (delete ▸ named)

/-- A local write imports nothing. -/
theorem LocalWrite.own {call : Call} (write : LocalWrite call) {key : Bytes} {version : Version} :
    ¬ db.Imports call key version := by
  intro imports
  cases write.domestic.brings_nothing.symm.trans imports.brings

end Db

end SomniumDB
