import SomniumDB.Abstract.RewriteChild

/-! # Committing a background rewrite

The child of a rewrite writes the rooms that were awake at the fork from memory,
and those that were asleep from their snapshot files, whenever it comes to them.
The parent goes on meanwhile. What the parent evicts to cold storage after the
fork is in neither place. -/

namespace SomniumDB

open Bytes LastUpdate

namespace Db

/-- Every time the child is through with a room it has read the whole of it. -/
def WholeReads : Db → List Event → Prop
  | _, [] => True
  | db, event :: rest =>
      (∀ now, event = .childStep now → db.ReadsWhole now) ∧ (db.step event).WholeReads rest

/-- The events of one rewrite: the process is not restarted, and the child is still
at work whenever a command starts, which would otherwise commit the rewrite. -/
def DuringRewrite : Db → List Event → Prop
  | _, [] => True
  | db, event :: rest =>
      (match event with
        | .command _ => ∃ child, db.rewriteChild = some child ∧ child.finished = false
        | .restart _ => False
        | _ => True) ∧ (db.step event).DuringRewrite rest

variable {fork db : Db} {now : Nat} {tail : List AofRecord} {child : RewriteChild}

theorem Rewrites.executed {config : Config} {call : Call} (sane : Sane config db)
    (rewrites : Rewrites fork call.now db) (busy : db.rewriteChild = some child)
    (unfinished : child.finished = false) : Rewrites fork call.now (db.execute call).1 := by
  unfold execute
  cases args : call.args with
  | nil => exact rewrites
  | cons first rest =>
      rw [beginCommand_busy busy unfinished]
      exact rewrites.dispatched (dispatched_dispatch sane.wellFormed call (by rw [args]; rfl))

theorem Rewrites.stepped {config : Config} {event : Event} (sane : Sane config db)
    (rewrites : Rewrites fork event.now db)
    (command : ∀ call, event = .command call →
      ∃ child, db.rewriteChild = some child ∧ child.finished = false)
    (alive : ∀ now, event ≠ .restart now)
    (whole : ∀ now, event = .childStep now → db.ReadsWhole now) :
    Rewrites fork event.now (db.step event) := by
  cases event with
  | command call =>
      rcases command call rfl with ⟨child, busy, unfinished⟩
      exact rewrites.executed sane busy unfinished
  | cleanup time clientFd =>
      exact rewrites.kept ⟨.refl, ⟨sane.wellFormed.exclusive, sane.wellFormed.asleep⟩, rfl, rfl,
        rfl, rfl, fun _ => id, fun _ member => .inl member⟩
  | cleanExpired time name => exact rewrites.kept (kept_cleanExpiredKeys sane.wellFormed time name)
  | hibernateInactive time name =>
      rcases hibernateInactive_spec sane.wellFormed time name with same | hibernated
      · change Rewrites fork time (db.hibernateInactive time name)
        rw [same]
        exact rewrites
      · exact rewrites.hibernated hibernated
  | childStep time => exact rewrites.childStepped (whole time rfl)
  | childFail time => exact rewrites.childFailed
  | restart time => exact absurd rfl (alive time)

/-- A whole run of the parent and the child. -/
theorem Rewrites.ran {config : Config} {events : List Event} (sane : Sane config db)
    (rewrites : Rewrites fork now db) (chronological : Chronological now events)
    (during : db.DuringRewrite events) (whole : db.WholeReads events) :
    Rewrites fork (endOfRun now events) (db.run events) := by
  induction events generalizing db now with
  | nil => exact rewrites
  | cons event rest induction =>
      rcases chronological with ⟨le, later⟩
      rcases during with ⟨pending, duringRest⟩
      have command : ∀ call, event = .command call →
          ∃ child, db.rewriteChild = some child ∧ child.finished = false := by
        rintro call rfl
        exact pending
      have alive : ∀ time, event ≠ .restart time := by
        rintro time rfl
        exact pending
      rw [run_cons, endOfRun_cons]
      exact induction (sane.stepped event)
        ((rewrites.later le).stepped sane command alive whole.1) later duringRest whole.2

/-- The log that is committed, replayed with or without the snapshot files. -/
theorem Underway.committed {config : Config} {start : Nat}
    {files : FiniteMap Bytes (FiniteMap Bytes Record)} (wellFormed : fork.WellFormed)
    (forkable : Forkable fork start) (begun : start ≤ now)
    (underway : Underway fork now tail db child) (sane : Sane config db)
    (finished : child.finished = true) (succeeded : child.failed = false)
    (disk : files = ∅ ∨ files = db.snapshots) (place : Place) :
    visible now ((recover config db.finishBackgroundRewrite.aof files now).held place) =
      visible now (db.finishBackgroundRewrite.held place) := by
  have ended := underway.ended finished
  have agrees : ∀ record, snapshotHeld files place = some record → Untouched tail place →
      visible now (some record) = visible now (fork.held place) := by
    intro record found untouched
    rcases disk with rfl | rfl
    · cases found
    · exact underway.files place record untouched found
  have commit := finishBackgroundRewrite_eq underway.busy finished succeeded
  rw [underway.sinceFork] at commit
  rcases recovered_recover config db.finishBackgroundRewrite.aof files
    now sane.finished.tidy.sound with ⟨⟨fresh, _, _, node⟩, _⟩
  have replayed := congrArg (fun node => node.held place) node
  rw [commit] at replayed ⊢
  refine (congrArg (visible now)
    (replayed.trans (Node.replayAll_held config _ _ place))).trans ?_
  exact underway.replayed wellFormed forkable begun ended place agrees

end Db

open Db

end SomniumDB
