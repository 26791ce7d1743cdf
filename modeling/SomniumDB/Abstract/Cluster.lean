import SomniumDB.Abstract.Fitting
import SomniumDB.Abstract.Mesh
import SomniumDB.Abstract.Shipping
import SomniumDB.Properties.Tombstones

/-! # A cluster

Several nodes serve their own clients and send each other what they have logged. What is
in flight is not part of the state: any change that a node has issued may be delivered to
any other node at any time, any number of times and in any order. -/

namespace SomniumDB

open Bytes LastWriter

/-- The nodes, the changes that each of them has logged of its own, and the changes of
other nodes that it has answered with success. -/
structure Cluster (ι : Type u) where
  node : ι → Db
  issued : ι → List Change
  accepted : ι → List Change

/-- What one of the nodes does. -/
inductive Move (ι : Type u)
  | own (home : ι) (event : Event)
  /-- A command that replicates a change. -/
  | relay (source target : ι) (change : Change) (call : Call)
  /-- `REPLFRONTIER`. -/
  | announce (source target : ι) (frontier : Nat) (call : Call)

/-- The node that moves. -/
def Move.home : Move ι → ι
  | .own home _ => home
  | .relay _ target _ _ => target
  | .announce _ target _ _ => target

def Move.event : Move ι → Event
  | .own _ event => event
  | .relay _ _ _ call => .command call
  | .announce _ _ _ call => .command call

def Move.now (move : Move ι) : Nat :=
  move.event.now

namespace Cluster

variable [DecidableEq ι]

def step (cluster : Cluster ι) : Move ι → Cluster ι
  | .own home event =>
      { cluster with
        node := Function.update cluster.node home ((cluster.node home).step event)
        issued := Function.update cluster.issued home
          (cluster.issued home ++
            ((cluster.node home).appendedBy event).flatMap AofRecord.changes) }
  | .relay _ target change call =>
      let (db, reply) := (cluster.node target).execute call
      { cluster with
        node := Function.update cluster.node target db
        accepted :=
          if reply.head? = some 43 then
            Function.update cluster.accepted target (change :: cluster.accepted target)
          else cluster.accepted }
  | .announce _ target _ call =>
      { cluster with
        node := Function.update cluster.node target ((cluster.node target).execute call).1 }

def run (cluster : Cluster ι) (moves : List (Move ι)) : Cluster ι :=
  moves.foldl step cluster

/-- Every node starts in an empty directory. -/
def start (config : ι → Config) (now : ι → Nat) : Cluster ι :=
  { node := fun home => Db.fresh (config home) (now home)
    issued := fun _ => []
    accepted := fun _ => [] }

/-- The changes that a node knows. -/
def known (cluster : Cluster ι) (home : ι) : Set Change :=
  {change | change ∈ cluster.issued home ∨ change ∈ cluster.accepted home}

/-- What a node does for its own clients and by itself: no replicated command and no
restart. Every record it logs names each key once and lasts, and the child of a rewrite
loses no snapshot. -/
def Own (horizon : Nat) (db : Db) : Event → Prop
  | .command call =>
      Db.Domestic call ∧ call.announces = none ∧
        ∀ record ∈ db.appended call, Site.Plain horizon record
  | .childStep _ => ∀ name, ¬ db.Misreads name
  | .restart _ => False
  | _ => True

/-- A change of another node is delivered, in its room. -/
structure Relayed (cluster : Cluster ι) (source target : ι) (change : Change) (call : Call) :
    Prop where
  different : source ≠ target
  issued : change ∈ cluster.issued source
  portable : change.Portable
  args : call.args = change.command
  selected : (cluster.node target).clientRoom call.clientFd = change.place.1
  listening : call.subscribed = false

/-- A frontier is delivered behind every change that it covers. -/
structure Announces (cluster : Cluster ι) (source target : ι) (frontier : Nat) (call : Call) :
    Prop where
  different : source ≠ target
  tells : call.announces = some ((cluster.node source).config.nodeId, frontier)
  published : frontier ≤ (cluster.node source).frontier
  behind : ∀ change ∈ cluster.issued source, change.version.ts ≤ frontier →
    change ∈ cluster.accepted target

def Allowed (horizon : Nat) (cluster : Cluster ι) : Move ι → Prop
  | .own home event => Own horizon (cluster.node home) event
  | .relay source target change call => cluster.Relayed source target change call
  | .announce source target frontier call => cluster.Announces source target frontier call

/-- A move at a clock reading in the hybrid format, before any deadline, at which the clock
of the node does not wrap around. -/
structure Proper (horizon : Nat) (cluster : Cluster ι) (move : Move ι) : Prop where
  wall : Hlc.kLegacyLimit ≤ move.now * 2 ^ 16
  before : move.now ≤ horizon
  fits : (cluster.node move.home).Fitting move.event
  allowed : cluster.Allowed horizon move

/-- A run from the start of all nodes on, all of whose moves are proper. -/
structure ProperRun (config : ι → Config) (now : ι → Nat) (horizon : Nat)
    (moves : List (Move ι)) : Prop where
  begins : ∀ home, Hlc.Fits 0 (now home) 0
  along : Runs.Always step (Proper horizon) (start config now) moves

end Cluster

namespace Db

variable {config : Config} {db : Db} {call : Call} {change : Change} {horizon : Nat}

/-! ## Commands of the node's own -/

/-- The commands that do not run in a room log nothing. -/
theorem appended_outside (sane : Sane config db) {first : Bytes}
    (head : call.args.head? = some first)
    (outside : ∀ kind, Command.named (upper first) = .inRoom kind → call.subscribed = true) :
    db.appended call = [] := by
  have begun := sane.begun call
  have form : ((db.beginCommand call).setClientRoom call.clientFd
      ((db.beginCommand call).clientRoom call.clientFd)).WellFormed :=
    ⟨begun.wellFormed.exclusive, begun.wellFormed.asleep⟩
  have executed : db.execute call = (db.beginCommand call).dispatch call (upper first) := by
    rcases List.head?_eq_some_iff.mp head with ⟨rest, args⟩
    unfold execute
    rw [args]
  apply appended_nil head
  rw [executed]
  unfold dispatch
  dsimp only
  cases named : Command.named (upper first) with
  | elsewhere => rfl
  | connection kind =>
      have same := aof_runConnection form call (upper first) kind
      cases kind with
      | ping => exact same
      | _ =>
          dsimp only
          split
          · rfl
          · exact same
  | inRoom kind =>
      dsimp only
      rw [if_pos (outside kind named)]
      rfl

/-- A command that is not replicated takes steps of the node's own, or logs nothing. -/
theorem execute_domestic (sane : Sane config db) (domestic : Domestic call) :
    ∃ log, (db.execute call).1.aof = log ++ db.appended call ∧
      (Node.Locals config call.now { db.node with log } (db.execute call).1.node ∨
        db.appended call = [] ∧
          Node.Steps config call.now { db.node with log } (db.execute call).1.node) := by
  rcases execute_steps sane call with ⟨log, steps, grown⟩
  cases args : call.args with
  | nil =>
      have nothing : db.appended call = [] := by
        unfold appended
        rw [args]
      exact ⟨log, grown, .inr ⟨nothing, steps⟩⟩
  | cons first rest =>
      have head : call.args.head? = some first := by
        rw [args]
        rfl
      by_cases inside : ∃ kind, Command.named (upper first) = .inRoom kind ∧
          call.subscribed = false
      · rcases inside with ⟨kind, named, listening⟩
        rcases node_beginCommand sane call with ⟨log, begun⟩
        have sameLog : (db.beginCommand call).aof = log := congrArg Node.log begun
        rcases execute_inRoom sane head named listening with
          ⟨_, _, node⟩ | ⟨_, awake, entered, _, node⟩
        · have same : (db.execute call).1.aof = log := (congrArg Node.log node).trans sameLog
          have nothing := appended_nil head (same.trans sameLog.symm)
          have locals : Node.Locals config call.now { db.node with log }
              (db.execute call).1.node := by
            rw [node, begun]
          refine ⟨log, ?_, .inl locals⟩
          rw [nothing, List.append_nil]
          exact same
        · have own : kind ≠ .crdtmerge ∧ kind ≠ .crdtdel := by
            have other := domestic first head
            constructor
            · intro merge
              subst merge
              exact other.1 (named_crdtmerge named)
            · intro delete
              subst delete
              exact other.2 (named_crdtdel named)
          have served : Serves Node.Local call.now awake _ :=
            serves_ownCommand entered.wellFormed entered.awake call.resp3 head named own
          have locals := served.steps
          rw [entered.config, sane.config, entered.node, begun, ← node] at locals
          rcases Node.locals_log locals with ⟨new, longer, _⟩
          have appends : db.appended call = new := by
            apply appended_of_log head
            rw [sameLog]
            exact longer
          refine ⟨log, ?_, .inl locals⟩
          rw [appends]
          exact longer
      · have outside : ∀ kind, Command.named (upper first) = .inRoom kind →
            call.subscribed = true := by
          intro kind named
          cases subscribed : call.subscribed with
          | true => rfl
          | false => exact absurd ⟨kind, named, subscribed⟩ inside
        exact ⟨log, grown, .inr ⟨appended_outside sane head outside, steps⟩⟩

/-- What a node does by itself: steps of its own, or steps that log nothing. -/
theorem step_own (sane : Sane config db) {event : Event} (own : Cluster.Own horizon db event) :
    ∃ log, (db.step event).aof = log ++ db.appendedBy event ∧
      (Node.Locals config event.now { db.node with log } (db.step event).node ∨
        db.appendedBy event = [] ∧
          Node.Steps config event.now { db.node with log } (db.step event).node) := by
  have other : (∀ now, event ≠ .restart now) → db.appendedBy event = [] →
      (∀ name, (∃ now, event = .childStep now) → ¬ db.Misreads name) →
      ∃ log, (db.step event).aof = log ++ db.appendedBy event ∧
        (Node.Locals config event.now { db.node with log } (db.step event).node ∨
          db.appendedBy event = [] ∧
            Node.Steps config event.now { db.node with log } (db.step event).node) := by
    intro alive nothing reads
    rcases step_evolves sane event alive with ⟨held, log, same, steps, grown⟩
    have unchanged : held = db.node.held := by
      funext place
      rcases same place with kept | ⟨child, misreads, _⟩
      · exact kept
      · exact absurd misreads (reads place.1 child)
    rw [unchanged] at steps
    exact ⟨log, grown, .inr ⟨nothing, steps⟩⟩
  cases event with
  | command call => exact execute_domestic sane own.1
  | cleanup now clientFd => exact other (by simp) rfl (by simp)
  | cleanExpired now name => exact other (by simp) rfl (by simp)
  | hibernateInactive now name => exact other (by simp) rfl (by simp)
  | childStep now => exact other (by simp) rfl fun name _ => own name
  | childFail now => exact other (by simp) rfl (by simp)
  | restart now => exact own.elim

theorem steady_own {event : Event} (own : Cluster.Own horizon db event) :
    Steady db (db.step event) := by
  have inProcess : (Occurrence.event event).InProcess := by
    cases event with
    | restart now => exact own.elim
    | _ => trivial
  have silent : (Act.occurrence (.event event) inProcess).announces = none := by
    cases event with
    | command call => exact own.2.1
    | _ => rfl
  rcases act_graves db (.occurrence (.event event) inProcess) with
    ⟨_, marks | clears⟩ | ⟨_, _, _, tells, _⟩
  · exact marks.steady
  · exact clears.steady
  · rw [silent] at tells
    cases tells

/-! ## Replicated commands -/

theorem named_command (args : call.args = change.command) :
    ∃ first kind, call.args.head? = some first ∧
      Command.named (upper first) = .inRoom kind ∧
      (kind = .crdtmerge ∧ upper first = ascii "CRDTMERGE" ∨
        kind = .crdtdel ∧ upper first = ascii "CRDTDEL") := by
  rcases command_head change with merge | delete
  · exact ⟨_, .crdtmerge, args ▸ merge, by decide, .inl ⟨rfl, by decide⟩⟩
  · exact ⟨_, .crdtdel, args ▸ delete, by decide, .inr ⟨rfl, by decide⟩⟩

theorem steady_relayed (args : call.args = change.command) :
    Steady db (db.execute call).1 := by
  rcases execute_graves db call with ⟨_, marks | clears⟩ | ⟨_, _, _, tells, _⟩
  · exact marks.steady
  · exact clears.steady
  · rcases named_command args with ⟨first, kind, head, named, _⟩
    rcases List.head?_eq_some_iff.mp head with ⟨rest, shape⟩
    unfold Call.announces at tells
    rw [shape] at tells
    dsimp only at tells
    rw [named, if_neg (by simp)] at tells
    cases tells

/-- A replicated command that is not answered with success leaves the content alone. -/
theorem execute_refused (sane : Sane config db) (args : call.args = change.command)
    (listening : call.subscribed = false) (refused : (db.execute call).2.head? ≠ some 43) :
    (db.execute call).1.node = (db.beginCommand call).node := by
  rcases named_command args with ⟨first, kind, head, named, replicated⟩
  rcases execute_inRoom sane head named listening with
    ⟨_, _, node⟩ | ⟨_, awake, entered, reply, node⟩
  · exact node
  · rw [reply] at refused
    have same : (awake.runInRoom call.now call.resp3 (db.clientRoom call.clientFd) call.args
        kind).1 = awake := by
      rcases replicated with ⟨merge, spelled⟩ | ⟨delete, spelled⟩
      · subst merge
        have outcome : Refused awake (awake.handleCrdtmerge call.now
            (db.clientRoom call.clientFd) call.args) ∨ _ :=
          handleCrdtmerge_cases entered.wellFormed entered.awake head spelled
        rcases outcome with negative | ⟨_, _, _, _, _, _, _, offered, _⟩
        · exact negative.1
        · exact absurd offered.accepted refused
      · subst delete
        have outcome : Refused awake (awake.handleCrdtdel call.now
            (db.clientRoom call.clientFd) call.args) ∨ _ :=
          handleCrdtdel_cases entered.wellFormed entered.awake head spelled
        rcases outcome with negative | ⟨_, _, _, _, _, offered, _⟩
        · exact negative.1
        · exact absurd offered.accepted refused
    rw [node, same]
    exact entered.node

/-! ## Announcements -/

/-- An announcement enters one frontier and logs nothing. -/
theorem execute_announce (sane : Sane config db) {id frontier : Nat}
    (tells : call.announces = some (id, frontier)) :
    ∃ log mid, Node.Steps config call.now { db.node with log } (db.execute call).1.node ∧
      (db.execute call).1.aof = log ∧ Announced db mid id frontier ∧
      (db.execute call).1 = mid.collectTombstones := by
  rcases execute_steps sane call with ⟨log, steps, grown⟩
  have nothing : db.appended call = [] := by
    cases args : call.args with
    | nil =>
        unfold appended
        rw [args]
    | cons first rest =>
        unfold Call.announces at tells
        rw [args] at tells
        dsimp only at tells
        by_cases connection : Command.named first.upper = .connection .replfrontier ∧
            call.subscribed = false
        · rw [if_pos connection] at tells
          apply appended_outside sane (by rw [args]; rfl)
          intro kind named
          rw [connection.1] at named
          cases named
        · rw [if_neg connection] at tells
          cases tells
  rw [nothing, List.append_nil] at grown
  rcases execute_graves db call with ⟨silent, _⟩ | ⟨node, told, mid, announced, entered, done⟩
  · rw [tells] at silent
    cases silent
  · rw [tells] at announced
    cases announced
    exact ⟨log, mid, steps, grown, entered, done⟩

end Db

end SomniumDB
