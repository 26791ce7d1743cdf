import SomniumDB.Abstract.Executed

/-! # What an event does to the content

A command is a run of steps from the log as it is when the command starts; the
watchdog takes steps of its own; the child of a rewrite may lose the snapshot of
a sleeping room; a restart replays the log. -/

namespace SomniumDB

open Bytes

namespace Db

variable {config : Config} {db : Db}

theorem Dispatched.steps {call : Call} {after : Db} (dispatched : Dispatched db call after) :
    Node.Steps db.config call.now db.node after.node := by
  cases dispatched with
  | kept kept => exact kept.steps
  | slept name kept hibernated =>
      have slept := hibernated.steps call.now
      rw [kept.config] at slept
      exact kept.steps.trans slept
  | forked kept idle =>
      rw [(forked_startBackgroundRewrite kept.wellFormed idle).node]
      exact kept.steps

/-- A command is a run of steps, which append its records. -/
theorem execute_steps (sane : Sane config db) (call : Call) :
    ∃ log, Node.Steps config call.now { db.node with log } (db.execute call).1.node ∧
      (db.execute call).1.aof = log ++ db.appended call := by
  cases args : call.args with
  | nil =>
      refine ⟨db.aof, ?_, ?_⟩
      · simp only [execute, args]
        exact .refl
      · simp only [execute, args, appended, List.append_nil]
  | cons first rest =>
      have head : call.args.head? = some first := by
        rw [args]
        rfl
      have begun := sane.begun call
      rcases node_beginCommand sane call with ⟨log, started⟩
      have executed : db.execute call = (db.beginCommand call).dispatch call (upper first) := by
        unfold execute
        rw [args]
      have steps := (dispatched_dispatch begun.wellFormed call head).steps
      rw [begun.config, ← executed] at steps
      have sameLog : (db.beginCommand call).aof = log := congrArg Node.log started
      rcases Node.steps_log steps with ⟨new, grown, _⟩
      change (db.execute call).1.aof = (db.beginCommand call).aof ++ new at grown
      refine ⟨log, started ▸ steps, ?_⟩
      rw [appended_of_log head new grown, grown, sameLog]

/-- The child is about to read the snapshot of a room, whose file has grown
since it took its size: the file will look corrupt to it. -/
def Misreads (db : Db) (name : Bytes) : Prop :=
  ∃ child size room rest file, db.rewriteChild = some child ∧ child.finished = false ∧
    child.todo = (name, room) :: rest ∧ child.statSize = some size ∧
    db.snapshots.lookup name = some file ∧ size < snapshotSize file

/-- What is left of the content when the snapshot of a room is renamed aside. -/
theorem held_eraseSnapshot (wellFormed : db.WellFormed) (name : Bytes)
    (child : Option RewriteChild) (place : Place) :
    { db with snapshots := db.snapshots.erase name, rewriteChild := child }.held place =
        db.held place ∨
      (db.room name).state = .sleeping ∧ place.1 = name ∧
        { db with snapshots := db.snapshots.erase name, rewriteChild := child }.held place =
          none := by
  have resident : { db with snapshots := db.snapshots.erase name, rewriteChild := child }.resident
      place.1 = residentOf (db.room place.1) ((db.snapshots.erase name).lookup place.1) :=
    resident_eq _ _
  unfold held
  rw [resident, resident_eq, FiniteMap.lookup_erase_if]
  by_cases same : place.1 = name
  · rw [if_pos same]
    cases state : (db.room place.1).state with
    | active =>
        left
        simp only [residentOf, state]
    | sleeping =>
        cases found : (residentOf (db.room place.1) (db.snapshots.lookup place.1)).lookup
            place.2 with
        | none =>
            left
            simp only [residentOf, state, Option.map_none, Option.getD_none]
            rfl
        | some record =>
            right
            have missing := wellFormed.exclusive place.1 place.2 record
              (by rw [resident_eq]; exact found)
            refine ⟨same ▸ state, same, ?_⟩
            simp only [residentOf, state, Option.map_none, Option.getD_none]
            exact missing
  · rw [if_neg same]
    exact .inl rfl

theorem rooms_childStep (db : Db) (now : Nat) : (db.childStep now).rooms = db.rooms := by
  rcases childStep_fields db now with ⟨_, _, fields, _⟩
  rw [fields]

/-- The child leaves the content alone, unless it misreads the snapshot of a
room that is asleep. -/
theorem childStep_node (wellFormed : db.WellFormed) (now : Nat) :
    ∃ held, (db.childStep now).node = { db.node with held } ∧
      ∀ place, held place = db.held place ∨
        db.Misreads place.1 ∧ (db.room place.1).state = .sleeping ∧ held place = none := by
  have same : ∃ held, db.node = { db.node with held } ∧
      ∀ place, held place = db.held place ∨
        db.Misreads place.1 ∧ (db.room place.1).state = .sleeping ∧ held place = none :=
    ⟨db.held, rfl, fun _ => .inl rfl⟩
  unfold childStep
  cases running : db.rewriteChild with
  | none => exact same
  | some child =>
      dsimp only
      by_cases finished : child.finished = true
      · rw [if_pos finished]
        exact same
      · rw [if_neg finished]
        cases child.now with
        | none => exact same
        | some start =>
            rcases todo : child.todo with _ | ⟨⟨name, room⟩, rest⟩
            · exact same
            · dsimp only
              by_cases awake : room.state = .active
              · rw [if_pos awake]
                exact same
              · rw [if_neg awake]
                cases taken : child.statSize with
                | none =>
                    dsimp only
                    cases db.snapshots.lookup name with
                    | none => exact same
                    | some _ => exact same
                | some size =>
                    unfold childReadSnapshot
                    cases present : db.snapshots.lookup name with
                    | none => exact same
                    | some file =>
                        dsimp only
                        by_cases unchanged : snapshotSize file = size
                        · rw [if_pos unchanged]
                          exact same
                        · rw [if_neg unchanged]
                          by_cases grown : size < snapshotSize file
                          · simp only [if_pos grown]
                            refine ⟨_, rfl, ?_⟩
                            intro place
                            rcases held_eraseSnapshot wellFormed name _ place with kept |
                              ⟨asleep, here, gone⟩
                            · exact .inl kept
                            · subst here
                              exact .inr ⟨⟨child, size, room, rest, file, running,
                                by simpa using finished, todo, taken, present, grown⟩, asleep, gone⟩
                          · simp only [if_neg grown]
                            exact same

/-- The records that an event appends. -/
def appendedBy (db : Db) : Event → List AofRecord
  | .command call => db.appended call
  | _ => []

/-- Every event but a restart: the log may be replaced, the child may lose a
snapshot, and then the node takes steps. -/
theorem step_evolves (sane : Sane config db) (event : Event)
    (alive : ∀ now, event ≠ .restart now) :
    ∃ held log, (∀ place, held place = db.held place ∨
        (∃ now, event = .childStep now) ∧ db.Misreads place.1 ∧
          (db.room place.1).state = .sleeping ∧ held place = none) ∧
      Node.Steps config event.now { db.node with held, log } (db.step event).node ∧
      (db.step event).aof = log ++ db.appendedBy event := by
  have quiet : ∀ after : Db, Node.Steps config event.now db.node after.node →
      after.aof = db.aof → ∃ held log, (∀ place, held place = db.held place ∨
        (∃ now, event = .childStep now) ∧ db.Misreads place.1 ∧
          (db.room place.1).state = .sleeping ∧ held place = none) ∧
      Node.Steps config event.now { db.node with held, log } after.node ∧
      after.aof = log ++ [] := by
    intro after steps sameLog
    exact ⟨db.held, db.aof, fun _ => .inl rfl, steps, by rw [sameLog, List.append_nil]⟩
  cases event with
  | command call =>
      rcases execute_steps sane call with ⟨log, steps, grown⟩
      exact ⟨db.held, log, fun _ => .inl rfl, steps, grown⟩
  | cleanup now fd => exact quiet _ .refl rfl
  | cleanExpired now name =>
      have kept := kept_cleanExpiredKeys sane.wellFormed now name
      refine quiet _ (sane.config ▸ kept.steps) ?_
      change (db.cleanExpiredKeys now name).aof = db.aof
      unfold cleanExpiredKeys
      by_cases unknown : name ∉ db.rooms
      · rw [if_pos unknown]
      · rw [if_neg unknown]
        rfl
  | hibernateInactive now name =>
      rcases hibernateInactive_spec sane.wellFormed now name with same | hibernated
      · exact quiet (db.hibernateInactive now name) (by rw [same]) (by rw [same])
      · exact quiet (db.hibernateInactive now name) (sane.config ▸ hibernated.steps now)
          hibernated.log
  | childStep now =>
      rcases childStep_node sane.wellFormed now with ⟨held, node, lost⟩
      refine ⟨held, db.aof, fun place => (lost place).imp id fun gone => ⟨⟨now, rfl⟩, gone⟩, ?_, ?_⟩
      · change Node.Steps config now _ (db.childStep now).node
        rw [node]
        exact .refl
      · exact (congrArg Node.log node).trans (List.append_nil _).symm
  | childFail now => exact quiet _ .refl rfl
  | restart now => exact absurd rfl (alive now)

end Db

end SomniumDB
