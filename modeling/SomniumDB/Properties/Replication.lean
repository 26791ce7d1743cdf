import SomniumDB.Abstract.ReplicationOffset
import SomniumDB.Library.Runs

/-! # The replicator skips no record

The log grows, is replaced and is recovered while the worker of a peer ships
it, with any of its calls failing and any answers. The offset is never ahead of
what the peer has accepted, and rounds without a failure bring it to the end. -/

namespace SomniumDB

open Bytes Resp AofRecord AofRecovery Replicator

variable {nodeId : Nat}

namespace Link

/-- Every event of a run is proper. -/
def ProperRun (nodeId : Nat) (events : List LinkEvent) : Prop :=
  Runs.Always (step nodeId) Proper {} events

theorem sound_start (nodeId : Nat) : Sound nodeId {} := by
  refine ⟨⟨?_, fun _ => .inl rfl, fun _ => Nat.zero_le _⟩, fun _ => .inl rfl,
    fun _ => Nat.zero_le _⟩
  constructor
  · exact .absent
  · intro busy
    cases busy
  · intro record member
    cases member
  · intro record member
    cases member

theorem sound_from {link : Link} {events : List LinkEvent} (sound : link.Sound nodeId)
    (proper : Runs.Always (step nodeId) Proper link events) :
    (link.run nodeId events).Sound nodeId := by
  induction events generalizing link with
  | nil => exact sound
  | cons event rest induction =>
      rcases (Runs.always_cons event rest).mp proper with ⟨here, later⟩
      exact induction (sound_step sound here) later

/-- However the rounds end. -/
theorem running_rounds {link : Link} (running : link.Running nodeId)
    (rounds : List ShipOutcome) : (link.run nodeId (rounds.map .turn)).Running nodeId := by
  induction rounds generalizing link with
  | nil => exact running
  | cons outcome rounds induction => exact induction (running_turn running outcome)

theorem sound_run {events : List LinkEvent} (proper : ProperRun nodeId events) :
    (run nodeId {} events).Sound nodeId :=
  sound_from (sound_start nodeId) proper

/-- The rounds of a run all come to their delivery, with every reply a
success. -/
def Succeeds (nodeId : Nat) (link : Link) (outcome : ShipOutcome) : Prop :=
  outcome.opened = true ∧ (link.worker.peer.connected = true ∨ outcome.connects = true) ∧
    outcome.readable = true ∧
    ∀ file ∈ link.file,
      delivered (shipRound nodeId link.worker.peer file outcome).2 outcome =
        some (shipRound nodeId link.worker.peer file outcome).2.commands.length

instance (nodeId : Nat) (link : Link) (outcome : ShipOutcome) :
    Decidable (Succeeds nodeId link outcome) :=
  inferInstanceAs (Decidable (_ ∧ _ ∧ _ ∧ _))

/-- The offset stands at an array of the log with at most `count` behind it. -/
def Remaining (log : List AofRecord) (offset count : Nat) : Prop :=
  ∃ done, offset = (wireBytes ((wireOf log).take done)).length ∧
    (wireOf log).length ≤ done + count

theorem Remaining.zero {log : List AofRecord} {offset : Nat} (remaining : Remaining log offset 0) :
    offset = (aofBytes log).length := by
  rcases remaining with ⟨done, stands, all⟩
  rw [List.take_of_length_le (by simpa using all), wireBytes_wireOf] at stands
  exact stands

theorem remaining_of_reached {log : List AofRecord} {accepted : List Item} {offset : Nat}
    (reached : Reached nodeId log accepted offset) :
    Remaining log offset (log.length + 1) := by
  rcases reached_iff.mp reached with ⟨done, _, stands, _⟩
  refine ⟨done, stands, ?_⟩
  simp [wireOf]

/-- A round without a failure leaves fewer arrays behind the offset. -/
theorem turn_remaining {link : Link} (running : link.Running nodeId) {bytes : Bytes}
    (present : link.manager.file = some bytes) (filled : bytes ≠ []) {outcome : ShipOutcome}
    (succeeds : link.Succeeds nodeId outcome) {count : Nat}
    (remaining : Remaining link.ledger.log
      (align link.worker.peer { inode := link.inode, bytes }).offset (count + 1)) :
    Remaining link.ledger.log (link.worker.turn nodeId link.file outcome).peer.offset count := by
  rcases succeeds with ⟨opened, joins, readable, complete⟩
  have file : link.file = some { inode := link.inode, bytes } := by
    simp [Link.file, present]
  have shaped := running.kept.shaped
  rw [present] at shaped
  rcases shaped.wire filled with ⟨part, unfinished, layout⟩
  rcases remaining with ⟨done, stands, few⟩
  have split : wireBytes (wireOf link.ledger.log) =
      wireBytes ((wireOf link.ledger.log).take done) ++
        wireBytes ((wireOf link.ledger.log).drop done) := by
    rw [← wireBytes_append, List.take_append_drop]
  have within : ∀ tokens ∈ (wireOf link.ledger.log).drop done, Within tokens :=
    fun tokens member => within_wireOf running.kept.log tokens (List.mem_of_mem_drop member)
  have behind : bytes.drop (align link.worker.peer { inode := link.inode, bytes }).offset =
      wireBytes ((wireOf link.ledger.log).drop done) ++ part := by
    rw [layout] at stands ⊢
    rw [stands, split, List.append_assoc, List.drop_left]
  rcases shipRound_wire nodeId link.worker.peer { inode := link.inode, bytes } outcome within
      unfinished behind with
    ⟨ready, taken, small, progress, built, marks, items, same⟩
  have start := (congrArg Peer.offset ready).trans
    (connect_offset (align link.worker.peer { inode := link.inode, bytes })).1
  have offset := (settled_wire outcome start marks items same).2
    (by rw [complete _ file]; exact length_items_le _)
  have peer := (turn_delivers nodeId link.worker { inode := link.inode, bytes } opened joins).1
  refine ⟨done + taken, ?_, ?_⟩
  · rw [file, peer, offset, stands, List.take_add, wireBytes_append, List.length_append]
  · by_cases last : (wireOf link.ledger.log).drop done = []
    · have beyond := List.drop_eq_nil_iff.mp last
      omega
    · have more := progress readable last
      omega

/-- Rounds without a failure come to the end of the complete records. -/
theorem rounds_remaining {link : Link} (running : link.Running nodeId) {bytes : Bytes}
    (present : link.manager.file = some bytes) (filled : bytes ≠ []) {rounds : List ShipOutcome}
    (succeed : Runs.Always (fun link outcome => link.step nodeId (.turn outcome))
      (Succeeds nodeId) link rounds)
    {count : Nat} (remaining : Remaining link.ledger.log
      (align link.worker.peer { inode := link.inode, bytes }).offset (count + rounds.length))
    (some : rounds ≠ []) :
    (link.run nodeId (rounds.map .turn)).worker.peer.inode = link.inode ∧
      Remaining link.ledger.log (link.run nodeId (rounds.map .turn)).worker.peer.offset count ∧
      (link.run nodeId (rounds.map .turn)).ledger = link.ledger ∧
      (link.run nodeId (rounds.map .turn)).manager = link.manager ∧
      (link.run nodeId (rounds.map .turn)).inode = link.inode := by
  induction rounds generalizing link with
  | nil => exact absurd rfl some
  | cons outcome rounds induction =>
      rcases (Runs.always_cons outcome rounds).mp succeed with ⟨here, later⟩
      have oneMore : Remaining link.ledger.log
          (align link.worker.peer { inode := link.inode, bytes }).offset
          (count + rounds.length + 1) := remaining
      have advanced := turn_remaining running present filled here oneMore
      rcases turn_reached running present here.1 here.2.1 with ⟨inode, _, _, bounded, _⟩
      cases rounds with
      | nil => exact ⟨inode, advanced, rfl, rfl, rfl⟩
      | cons next others =>
          have behind : Remaining link.ledger.log
              (align (link.worker.turn nodeId link.file outcome).peer
                { inode := link.inode, bytes }).offset (count + (next :: others).length) := by
            rw [align_same inode bounded]
            exact advanced
          have stepped : (link.step nodeId (.turn outcome)).Running nodeId :=
            running_turn running outcome
          exact induction stepped present later behind (List.cons_ne_nil _ _)

/-- An offset behind the last record is behind all of them. -/
theorem reached_all {log : List AofRecord} {accepted : List Item} {offset : Nat}
    (reached : Reached nodeId log accepted offset) (behind : (aofBytes log).length ≤ offset) :
    ∀ record ∈ log, Covered nodeId record.tokens accepted := by
  rcases reached with start | ⟨count, small, stands, covered⟩
  · have positive := List.length_pos_iff.mpr (aofBytes_ne_nil log)
    omega
  · have split := aofBytes_append (log.take count) (log.drop count)
    rw [List.take_append_drop] at split
    have rest := length_le_flatMap encodeRecord_ne_nil (log.drop count)
    have total := congrArg List.length split
    rw [List.length_append] at total
    have nothing : (log.drop count).length = 0 := by
      omega
    have whole : log.take count = log := by
      rw [List.length_drop] at nothing
      exact List.take_of_length_le (by omega)
    rw [whole] at covered
    exact covered

theorem link_file {link : Link} {bytes : Bytes} (present : link.manager.file = some bytes) :
    link.file = some { inode := link.inode, bytes } := by
  simp [Link.file, present]

theorem prepare_closing {frontier : Nat} {peer : Peer} {file : AofFile}
    (closes : (prepare nodeId frontier peer file).2.closing =
      some [ascii "REPLFRONTIER", decimal nodeId, decimal frontier]) :
    ((prepare nodeId frontier peer file).2.marks.getLast?.map Prod.snd).getD
      (prepare nodeId frontier peer file).1.offset = file.bytes.length := by
  by_contra short
  simp only [prepare] at closes short
  rw [if_neg short] at closes
  by_cases nothing : (readBatch nodeId (connect (align peer file)) file).1.out = []
  · rw [if_pos nothing] at closes
    simp at closes
  · rw [if_neg nothing] at closes
    cases closes

/-- The frontier closes a pipeline that comes to the end of the file. -/
theorem shipRound_closing {start : Nat} {peer : Peer} {file : AofFile}
    {outcome : ShipOutcome} {built : Build}
    (stands : (shipRound nodeId peer file outcome).1.offset = start)
    (marks : (shipRound nodeId peer file outcome).2.marks = built.marks)
    (closes : (shipRound nodeId peer file outcome).2.closing =
      some [ascii "REPLFRONTIER", decimal nodeId, decimal outcome.frontier]) :
    (built.marks.getLast?.map Prod.snd).getD start = file.bytes.length := by
  rw [← stands, ← marks]
  simp only [shipRound] at closes ⊢
  by_cases readable : outcome.readable = true
  · rw [if_pos readable] at closes
    rw [if_pos readable]
    exact prepare_closing closes
  · rw [if_neg readable] at closes
    simp [unreadRound] at closes

end Link

open Link

/-- One record, shipped to a peer that accepts it, and a restart. -/
def shippedRecord : AofRecord where
  room := ascii "default"
  args := [ascii "SET", ascii "k", ascii "v"]
  timestampMs := 5

def shippedRound : ShipOutcome where
  frontier := 5
  chunks := [ascii "+OK\r\n+", ascii "OK\r\n+OK\r\n"]

def shippedEvents : List LinkEvent :=
  [.call (.openFile {}) 7,
    .call (.append shippedRecord { written := shippedRecord.encodeRecord.length }) 7,
    .turn shippedRound, .restart]

theorem fits_shippedRecord : shippedRecord.Fits := by
  constructor <;> decide

theorem properRun_shipped : ProperRun 1 shippedEvents := by
  have created : Proper {} (.call (.openFile {}) 7) := by
    refine ⟨?_, trivial, fun _ => by decide⟩
    intro _ _ _ _ short
    exact absurd short (lt_irrefl _)
  have appended : Proper (step 1 {} (.call (.openFile {}) 7))
      (.call (.append shippedRecord { written := shippedRecord.encodeRecord.length }) 7) :=
    ⟨fun _ _ _ => by decide +kernel, fits_shippedRecord, fun _ => by decide +kernel⟩
  simp only [ProperRun, shippedEvents, Runs.always_cons]
  exact ⟨created, appended, nofun, trivial, Runs.always_nil⟩

/-- Whatever happens to the log, the connection and the process: the offset of
the peer, as it is held in memory and as it is saved, stands behind complete
records of the log, and the peer has answered every command that replicates the
own ones among them with success. -/
theorem offset_behind_accepted {events : List LinkEvent} (proper : ProperRun nodeId events) :
    ((run nodeId {} events).worker.peer.inode = (run nodeId {} events).inode →
        Reached nodeId (run nodeId {} events).ledger.log (run nodeId {} events).accepted
          (run nodeId {} events).worker.peer.offset) ∧
      ((run nodeId {} events).worker.saved.inode = (run nodeId {} events).inode →
        Reached nodeId (run nodeId {} events).ledger.log (run nodeId {} events).accepted
          (run nodeId {} events).worker.saved.offset) ∧
      Shaped Fits (run nodeId {} events).manager.torn (run nodeId {} events).manager.file
        (run nodeId {} events).ledger.log :=
  ⟨(sound_run proper).peer, (sound_run proper).saved, (sound_run proper).kept.shaped⟩

theorem offset_behind_accepted_shipped :
    Reached 1 (run 1 {} shippedEvents).ledger.log (run 1 {} shippedEvents).accepted
      (run 1 {} shippedEvents).worker.saved.offset :=
  (offset_behind_accepted properRun_shipped).2.1 (by decide +kernel)

/-- A round sends nothing again: as long as the log is the same file, no round
moves the offset back, however it ends. -/
theorem offset_advances {events : List LinkEvent} (proper : ProperRun nodeId events)
    (same : (run nodeId {} events).worker.peer.inode = (run nodeId {} events).inode)
    (outcome : ShipOutcome) :
    ((run nodeId {} events).step nodeId (.turn outcome)).worker.peer.inode =
        (run nodeId {} events).inode ∧
      (run nodeId {} events).worker.peer.offset ≤
        ((run nodeId {} events).step nodeId (.turn outcome)).worker.peer.offset := by
  have sound := sound_run proper
  generalize run nodeId {} events = link at same sound
  have inside := sound.inside same
  have still : ∀ bytes, link.manager.file = some bytes →
      (align link.worker.peer { inode := link.inode, bytes }) = link.worker.peer := by
    intro bytes present
    rw [AofManager.content, present] at inside
    exact align_same same inside
  simp only [step]
  rcases turn_delivers_or_stops link outcome with ⟨bytes, present, opened, joins⟩ | stops
  · rcases turn_reached sound.toRunning present opened joins with ⟨inode, forward, _⟩
    rw [still bytes present] at forward
    exact ⟨inode, forward⟩
  · rcases (turn_stops nodeId link outcome stops).2 with unmoved | ⟨bytes, present, moved⟩
    · rw [unmoved]
      exact ⟨same, le_rfl⟩
    · rw [moved, still bytes present]
      exact ⟨same, le_rfl⟩

theorem offset_advances_shipped :
    ((run 1 {} shippedEvents).step 1 (.turn {})).worker.peer.inode =
        (run 1 {} shippedEvents).inode ∧
      (run 1 {} shippedEvents).worker.peer.offset ≤
        ((run 1 {} shippedEvents).step 1 (.turn {})).worker.peer.offset :=
  offset_advances properRun_shipped (by decide +kernel) {}

/-- A frontier is sent only behind the end of the log: where the peer accepts
what the round sends before it, it has accepted every command for the records
of the whole log. -/
theorem frontier_behind_accepted {events : List LinkEvent} (proper : ProperRun nodeId events)
    {outcome : ShipOutcome} {file : AofFile} (present : (run nodeId {} events).file = some file)
    (opened : outcome.opened = true)
    (joins : (run nodeId {} events).worker.peer.connected = true ∨ outcome.connects = true)
    (closes : (shipRound nodeId (run nodeId {} events).worker.peer file outcome).2.closing =
      some [ascii "REPLFRONTIER", decimal nodeId, decimal outcome.frontier])
    (accepted :
      (shipRound nodeId (run nodeId {} events).worker.peer file outcome).2.items.length ≤
        (delivered (shipRound nodeId (run nodeId {} events).worker.peer file outcome).2
          outcome).getD 0) :
    ∀ record ∈ (run nodeId {} events).ledger.log, Covered nodeId record.tokens
      ((run nodeId {} events).step nodeId (.turn outcome)).accepted := by
  have sound := sound_run proper
  generalize run nodeId {} events = link at *
  rcases Option.map_eq_some_iff.mp present with ⟨bytes, content, same⟩
  rw [← same] at closes accepted
  by_cases filled : bytes = []
  · have shaped := sound.kept.shaped
    rw [content] at shaped
    have nothing := shaped.log_nil filled
    rw [nothing]
    intro record member
    cases member
  · have shaped := sound.kept.shaped
    rw [content] at shaped
    have aligned := aligned_reached sound.toRunning bytes
    rcases ahead_of_reached shaped sound.kept.log aligned.1 aligned.2 with ⟨wire, part, ahead⟩
    rcases shipRound_wire nodeId link.worker.peer { inode := link.inode, bytes } outcome
        ahead.within ahead.unfinished ahead.layout with
      ⟨ready, count, small, _, built, marks, items, kept⟩
    have start := (congrArg Peer.offset ready).trans (connect_offset _).1
    have offset := (settled_wire outcome start marks items kept).2 accepted
    have ends : (built.marks.getLast?.map Prod.snd).getD
        (align link.worker.peer { inode := link.inode, bytes }).offset = bytes.length :=
      shipRound_closing start kept closes
    have peer := (turn_delivers nodeId link.worker { inode := link.inode, bytes } opened joins).1
    have reached := (turn_reached sound.toRunning content opened joins).2.2.1
    rw [link_file content, peer, offset, ← marks.stop, ends] at reached
    apply reached_all reached
    rcases shaped.wire filled with ⟨rest, _, layout⟩
    rw [layout, wireBytes_wireOf, List.length_append]
    exact Nat.le_add_right _ _

theorem frontier_behind_accepted_shipped :
    Covered 1 shippedRecord.tokens
      ((run 1 {} shippedEvents).step 1 (.turn shippedRound)).accepted := by
  have content : (run 1 {} shippedEvents).manager.file = some (aofBytes [shippedRecord]) := by
    decide +kernel
  have logged : shippedRecord ∈ (run 1 {} shippedEvents).ledger.log := by
    decide +kernel
  exact frontier_behind_accepted properRun_shipped (link_file content) rfl (.inr rfl)
    (by decide +kernel) (by decide +kernel) shippedRecord logged

/-- Rounds without a failure, one more than there are records, bring the offset
to the end of the complete records, and by then all of them have been accepted. -/
theorem rounds_reach_end {events : List LinkEvent} (proper : ProperRun nodeId events)
    {rounds : List ShipOutcome}
    (present : (run nodeId {} events).manager.content ≠ [])
    (succeed : Runs.Always (fun link outcome => link.step nodeId (.turn outcome))
      (Succeeds nodeId) (run nodeId {} events) rounds)
    (enough : (run nodeId {} events).ledger.log.length < rounds.length) :
    (run nodeId {} (events ++ rounds.map .turn)).worker.peer.offset =
        (aofBytes (run nodeId {} events).ledger.log).length ∧
      ∀ record ∈ (run nodeId {} events).ledger.log,
        Covered nodeId record.tokens (run nodeId {} (events ++ rounds.map .turn)).accepted := by
  have sound := sound_run proper
  have append : run nodeId {} (events ++ rounds.map .turn) =
      (run nodeId {} events).run nodeId (rounds.map .turn) := by
    simp [run]
  rw [append]
  generalize run nodeId {} events = link at *
  cases file : link.manager.file with
  | none =>
      rw [AofManager.content, file] at present
      exact absurd rfl present
  | some bytes =>
      rw [AofManager.content, file] at present
      have some : rounds ≠ [] := by
        intro none
        rw [none] at enough
        exact absurd enough (Nat.not_lt_zero _)
      have start := remaining_of_reached (aligned_reached sound.toRunning bytes).1
      have remaining : Remaining link.ledger.log
          (align link.worker.peer { inode := link.inode, bytes }).offset (0 + rounds.length) := by
        rcases start with ⟨done, stands, few⟩
        exact ⟨done, stands, by omega⟩
      rcases rounds_remaining sound.toRunning file present succeed remaining some with
        ⟨inode, none, ledger, _, linkInode⟩
      have final := running_rounds sound.toRunning rounds
      have reached := final.peer (inode.trans linkInode.symm)
      rw [ledger] at reached
      exact ⟨none.zero, reached_all reached none.zero.ge⟩

theorem rounds_reach_end_shipped :
    (run 1 {} (shippedEvents ++ [shippedRound, shippedRound].map .turn)).worker.peer.offset =
        (aofBytes (run 1 {} shippedEvents).ledger.log).length ∧
      ∀ record ∈ (run 1 {} shippedEvents).ledger.log, Covered 1 record.tokens
        (run 1 {} (shippedEvents ++ [shippedRound, shippedRound].map .turn)).accepted := by
  have succeed : Runs.Always (fun link outcome => step 1 link (.turn outcome)) (Succeeds 1)
      (run 1 {} shippedEvents) [shippedRound, shippedRound] := by
    simp only [Runs.always_cons]
    exact ⟨by decide +kernel, by decide +kernel, Runs.always_nil⟩
  exact rounds_reach_end properRun_shipped (by decide +kernel) succeed (by decide +kernel)

end SomniumDB
