import Mathlib.Data.List.TakeWhile
import SomniumDB.Abstract.Batches
import SomniumDB.Abstract.ReplicationLink

/-! # Where the offset of a peer stands

The offset stands behind records of the log whose commands the peer has
accepted. Every call of the manager, every round and every restart keeps this,
for the offset in memory and for the one on disk. -/

namespace SomniumDB

open Bytes Resp AofRecord AofRecovery Replicator

/-! ## The log as arrays -/

/-- The header and the records, as the replicator reads them. -/
def wireOf (log : List AofRecord) : List (List Bytes) :=
  [kMagicToken, ascii "3"] :: log.map tokens

theorem wireBytes_map (log : List AofRecord) :
    wireBytes (log.map tokens) = log.flatMap encodeRecord := by
  simp only [wireBytes, List.flatMap_map]
  rfl

theorem wireBytes_wireOf (log : List AofRecord) : wireBytes (wireOf log) = aofBytes log := by
  have header : encode [kMagicToken, ascii "3"] = aofHeader := by decide
  have split : wireBytes (wireOf log) =
      encode [kMagicToken, ascii "3"] ++ wireBytes (log.map tokens) := rfl
  rw [split, header, wireBytes_map]
  rfl

theorem Fits.within {record : AofRecord} (fits : record.Fits) : Within record.tokens := by
  constructor
  · rw [length_tokens]
    exact fits.few
  · exact tokens_small fits.room fits.args fits.deadline.1 fits.deadline.2 fits.timestamp fits.node

theorem within_wireOf {log : List AofRecord} (fits : ∀ record ∈ log, record.Fits) :
    ∀ tokens ∈ wireOf log, Within tokens := by
  intro tokens member
  rcases List.mem_cons.mp member with header | member
  · rw [header]
    constructor <;> decide
  · rcases List.mem_map.mp member with ⟨record, inside, same⟩
    rw [← same]
    exact Fits.within (fits record inside)

theorem Shaped.wire {torn : Bool} {bytes : Bytes} {log : List AofRecord}
    (shaped : Shaped Fits torn (some bytes) log) (filled : bytes ≠ []) :
    ∃ part, Unfinished part ∧ bytes = wireBytes (wireOf log) ++ part := by
  rw [wireBytes_wireOf]
  cases shaped with
  | empty => exact absurd rfl filled
  | whole => exact ⟨[], unfinished_nil, (List.append_nil _).symm⟩
  | part _ record part missing isTorn known cut lacking =>
      exact ⟨part, ⟨record.tokens, missing, Fits.within known, cut, lacking⟩, rfl⟩

/-! ## Offsets -/

/-- The offset stands at the beginning of the log or behind some of its
records, and the commands of these have all been accepted. The records of other
nodes have none. -/
def Reached (nodeId : Nat) (log : List AofRecord) (accepted : List Item) (offset : Nat) : Prop :=
  offset = 0 ∨ ∃ count ≤ log.length, offset = (aofBytes (log.take count)).length ∧
    ∀ record ∈ log.take count, Covered nodeId record.tokens accepted

theorem reached_iff {nodeId : Nat} {log : List AofRecord} {accepted : List Item} {offset : Nat} :
    Reached nodeId log accepted offset ↔
      ∃ count ≤ (wireOf log).length, offset = (wireBytes ((wireOf log).take count)).length ∧
        ∀ tokens ∈ (wireOf log).take count, Covered nodeId tokens accepted := by
  have front : ∀ count, (wireOf log).take (count + 1) = wireOf (log.take count) := by
    intro count
    simp [wireOf, List.map_take]
  constructor
  · intro reached
    rcases reached with start | ⟨count, small, stands, covered⟩
    · exact ⟨0, Nat.zero_le _, start, by simp⟩
    · refine ⟨count + 1, ?_, ?_, ?_⟩
      · simpa [wireOf] using small
      · rw [front, wireBytes_wireOf, stands]
      · intro tokens member
        rw [front] at member
        rcases List.mem_cons.mp member with header | member
        · rw [header]
          intro args sent
          simp [recordCommands] at sent
        · rcases List.mem_map.mp member with ⟨record, inside, same⟩
          rw [← same]
          exact covered record inside
  · intro reached
    rcases reached with ⟨count, small, stands, covered⟩
    cases count with
    | zero => exact .inl stands
    | succ count =>
        rw [front, wireBytes_wireOf] at stands
        refine .inr ⟨count, ?_, stands, ?_⟩
        · simpa [wireOf] using small
        · intro record member
          apply covered
          rw [front]
          exact List.mem_cons_of_mem _ (List.mem_map_of_mem member)

theorem Reached.mono {nodeId offset : Nat} {log longer : List AofRecord}
    {accepted more : List Item} (reached : Reached nodeId log accepted offset)
    (grown : log <+: longer) (included : accepted ⊆ more) :
    Reached nodeId longer more offset := by
  rcases reached with start | ⟨count, small, stands, covered⟩
  · exact .inl start
  · rcases grown with ⟨tail, same⟩
    have front : longer.take count = log.take count := by
      rw [← same, List.take_append_of_le_length small]
    refine .inr ⟨count, ?_, ?_, ?_⟩
    · rw [← same, List.length_append]
      omega
    · rw [front, stands]
    · intro record member
      rw [front] at member
      exact (covered record member).mono included

/-- An offset that has been reached is within a file that is not empty. -/
theorem Reached.inside {nodeId offset : Nat} {log : List AofRecord} {accepted : List Item}
    (reached : Reached nodeId log accepted offset) : offset ≤ (aofBytes log).length := by
  rcases reached_iff.mp reached with ⟨count, _, stands, _⟩
  rw [stands, ← wireBytes_wireOf]
  have split := congrArg wireBytes (List.take_append_drop count (wireOf log))
  rw [wireBytes_append] at split
  rw [← split, List.length_append]
  omega

/-! ## A round -/

namespace Replicator

/-- The offset afterwards is that of a mark whose replies have all been counted,
or the old one. -/
theorem confirmed_cases (acked : Nat) (marks : List (Nat × Nat)) (offset : Nat) :
    confirmed acked marks offset = offset ∨
      ∃ mark ∈ marks, mark.1 ≤ acked ∧ confirmed acked marks offset = mark.2 := by
  simp only [confirmed]
  cases last : (marks.takeWhile fun mark => decide (mark.1 ≤ acked)).getLast? with
  | none => exact .inl rfl
  | some mark =>
      have member := List.mem_of_getLast? last
      refine .inr ⟨mark, (List.takeWhile_subset _) member, ?_, rfl⟩
      simpa using List.mem_takeWhile_imp member

/-- When every reply counted, the last mark is confirmed. -/
theorem confirmed_all {acked : Nat} {marks : List (Nat × Nat)} (offset : Nat)
    (enough : ∀ mark ∈ marks, mark.1 ≤ acked) :
    confirmed acked marks offset = (marks.getLast?.map Prod.snd).getD offset := by
  have whole : marks.takeWhile (fun mark => decide (mark.1 ≤ acked)) = marks := by
    rw [List.takeWhile_eq_self_iff]
    intro mark member
    exact decide_eq_true (enough mark member)
  simp only [confirmed, whole]

/-- What precedes the first refusal has been accepted. -/
theorem mem_accepted {items : List Item} {lines : List Bytes} {item : Item}
    (before : item ∈ items.take (ackedOf lines)) :
    item ∈ (items.zip lines).filterMap fun pair =>
      if pair.2.head? = some 43 then some pair.1 else none := by
  induction items generalizing lines with
  | nil => simp at before
  | cons first rest induction =>
      cases lines with
      | nil => simp [ackedOf] at before
      | cons line lines =>
          by_cases success : line.head? = some 43
          · have count : ackedOf (line :: lines) = ackedOf lines + 1 := by
              simp [ackedOf, success]
            rw [count, List.take_succ_cons] at before
            simp only [List.zip_cons_cons, List.filterMap_cons, success, if_true]
            rcases List.mem_cons.mp before with here | later
            · rw [here]
              exact List.mem_cons_self
            · exact List.mem_cons_of_mem _ (induction later)
          · simp [ackedOf, success] at before

/-- The items counted by `deliver` have been accepted. -/
theorem mem_acceptedItems {round : Round} {outcome : ShipOutcome} {item : Item}
    (before : item ∈ round.items.take ((delivered round outcome).getD 0)) :
    item ∈ acceptedItems round outcome := by
  simp only [delivered, receive_eq] at before
  simp only [acceptedItems]
  cases sent : outcome.sent with
  | false => simp [sent] at before
  | true =>
      simp only [sent, if_true] at before ⊢
      cases found : replyLines round.commands.length (receivedText outcome.chunks) with
      | none => simp [found] at before
      | some lines =>
          rw [found] at before
          exact mem_accepted before

theorem align_cases (peer : Peer) (file : AofFile) :
    (align peer file).inode = file.inode ∧ (align peer file).connected = peer.connected ∧
      ((align peer file).offset = 0 ∨
        peer.inode = file.inode ∧ peer.offset ≤ file.bytes.length ∧
          (align peer file).offset = peer.offset) := by
  simp only [align]
  by_cases moved : file.inode ≠ peer.inode ∨ file.bytes.length < peer.offset
  · rw [if_pos moved]
    exact ⟨rfl, rfl, .inl rfl⟩
  · rw [if_neg moved]
    rw [not_or, not_not, not_lt] at moved
    exact ⟨moved.1.symm, rfl, .inr ⟨moved.1.symm, moved.2, rfl⟩⟩

theorem align_same {peer : Peer} {file : AofFile} (same : peer.inode = file.inode)
    (inside : peer.offset ≤ file.bytes.length) : align peer file = peer := by
  have stays : ¬ (file.inode ≠ peer.inode ∨ file.bytes.length < peer.offset) := by
    rw [not_or, not_not]
    exact ⟨same.symm, Nat.not_lt.mpr inside⟩
  rw [align, if_neg stays]

theorem length_items_le (round : Round) : round.items.length ≤ round.commands.length := by
  simp [Round.commands]

theorem connect_offset (peer : Peer) :
    (connect peer).offset = peer.offset ∧ (connect peer).inode = peer.inode := by
  simp only [connect]
  by_cases same : peer.connected = true
  · rw [if_pos same]
    exact ⟨rfl, rfl⟩
  · rw [if_neg same]
    exact ⟨rfl, rfl⟩

/-- The pipeline of a round over a log of arrays: the peer stays where it is,
and the marks are those of a batch. -/
theorem shipRound_wire (nodeId : Nat) (peer : Peer) (file : AofFile) (outcome : ShipOutcome)
    {wire : List (List Bytes)} {part : Bytes} (within : ∀ tokens ∈ wire, Within tokens)
    (unfinished : Unfinished part)
    (behind : file.bytes.drop (align peer file).offset = wireBytes wire ++ part) :
    (shipRound nodeId peer file outcome).1 = connect (align peer file) ∧
      ∃ count ≤ wire.length, (outcome.readable = true → wire ≠ [] → 0 < count) ∧
        ∃ built : Build, built.Marks nodeId (align peer file).offset (wire.take count) ∧
          (shipRound nodeId peer file outcome).2.items = built.out ∧
          (shipRound nodeId peer file outcome).2.marks = built.marks := by
  have offset := (connect_offset (align peer file)).1
  rw [← offset] at behind
  rcases readBatch_wire nodeId within unfinished behind with ⟨count, small, progress, marks, fits⟩
  rw [offset] at marks
  simp only [shipRound]
  by_cases succeeds : outcome.readable = true
  · rw [if_pos succeeds]
    have still : (prepare nodeId outcome.frontier peer file).1 = connect (align peer file) := by
      simp [prepare, fits]
    exact ⟨still, count, small, fun _ => progress, _, marks, rfl, rfl⟩
  · rw [if_neg succeeds]
    refine ⟨rfl, 0, Nat.zero_le _, fun readable => absurd readable succeeds, { room := [] }, ?_,
      rfl, rfl⟩
    exact marks_empty nodeId (align peer file).offset []

/-- What the offset is after a round: some more records, all of whose commands
have been accepted; the whole batch when no command of it was refused. -/
theorem settled_wire {nodeId start : Nat} {peer : Peer} {round : Round}
    {wire : List (List Bytes)} {built : Build} (outcome : ShipOutcome)
    (stands : peer.offset = start) (marks : built.Marks nodeId start wire)
    (items : round.items = built.out) (same : round.marks = built.marks) :
    (∃ count ≤ wire.length,
        (settleAcked peer round (delivered round outcome)).offset =
          start + (wireBytes (wire.take count)).length ∧
        ∀ tokens ∈ wire.take count, Covered nodeId tokens (acceptedItems round outcome)) ∧
      (round.items.length ≤ (delivered round outcome).getD 0 →
        (settleAcked peer round (delivered round outcome)).offset =
          start + (wireBytes wire).length) := by
  have offset : (settleAcked peer round (delivered round outcome)).offset =
      confirmed ((delivered round outcome).getD 0) built.marks start := by
    simp only [settleAcked, stands, same]
  rw [offset]
  constructor
  · rcases confirmed_cases ((delivered round outcome).getD 0) built.marks start with
      still | ⟨mark, member, counted, moved⟩
    · exact ⟨0, Nat.zero_le _, still, by simp⟩
    · rcases marks.behind mark member with ⟨count, small, stop, covered⟩
      refine ⟨count, small, moved.trans stop, ?_⟩
      intro tokens inside args sent
      apply mem_acceptedItems
      rw [items]
      exact List.take_subset_take_left _ counted (covered tokens inside args sent)
  · intro complete
    have enough : ∀ mark ∈ built.marks, mark.1 ≤ (delivered round outcome).getD 0 := by
      intro mark member
      have sent := marks.sent mark member
      rw [← items] at sent
      exact sent.trans complete
    rw [confirmed_all start enough, marks.stop]

end Replicator

/-! ## The invariant -/

/-- What holds of the log and the worker while the process runs. -/
structure Link.Running (nodeId : Nat) (link : Link) : Prop where
  kept : link.manager.Kept Fits link.ledger
  peer : link.worker.peer.inode = link.inode →
    Reached nodeId link.ledger.log link.accepted link.worker.peer.offset
  inside : link.worker.peer.inode = link.inode →
    link.worker.peer.offset ≤ link.manager.content.length

/-- What holds between two events. -/
structure Link.Sound (nodeId : Nat) (link : Link) : Prop extends Link.Running nodeId link where
  saved : link.worker.saved.inode = link.inode →
    Reached nodeId link.ledger.log link.accepted link.worker.saved.offset
  savedInside : link.worker.saved.inode = link.inode →
    link.worker.saved.offset ≤ link.manager.content.length

/-- A state file that is written in part ends before the offset. -/
def Replicator.ShipOutcome.Uncut (outcome : ShipOutcome) (inode : Nat) : Prop :=
  ∀ length, outcome.offsetSave = .cut length → length ≤ (decimal inode).length + 1

/-- What an event needs: a call is made as the manager expects it, a file that is put in
place has an inode that the worker has not noted, and no part of an offset is saved. -/
def Link.Proper (link : Link) : LinkEvent → Prop
  | .call call inode =>
      link.manager.Careful link.ledger call ∧ AofManager.Admits Fits call ∧
        (Link.Replaces link.manager call →
          inode ≠ link.worker.peer.inode ∧ inode ≠ link.worker.saved.inode)
  | .turn outcome => outcome.Uncut link.inode
  | .restart => True

namespace Link

variable {nodeId : Nat} {link : Link}

/-- A call that puts no other file in place only adds records. -/
theorem recorded_grows (manager : AofManager) (ledger : Ledger) {call : AofCall}
    (stays : ¬ Replaces manager call) :
    ledger.log <+: (manager.recorded ledger call).log := by
  cases call with
  | append record outcome =>
      simp only [AofManager.recorded]
      by_cases appends : manager.Appends record outcome
      · rw [if_pos appends]
        exact List.prefix_append _ _
      · rw [if_neg appends]
  | commitRewrite outcome =>
      simp only [AofManager.recorded]
      by_cases commits : manager.Commits outcome
      · rw [if_pos commits]
        exact absurd (.inr ⟨outcome, rfl, commits⟩) stays
      · rw [if_neg commits]
  | startRewrite opened written =>
      simp only [AofManager.recorded]
      by_cases rewriteFd : manager.rewriteFd = true
      · rw [if_pos rewriteFd]
      · rw [if_neg rewriteFd]
  | appendRewrite record written =>
      simp only [AofManager.recorded]
      by_cases same : (manager.appendRewrite record written).2 = true
      · rw [if_pos same]
      · rw [if_neg same]
  | appendTail start opened copied =>
      simp only [AofManager.recorded]
      by_cases same : (manager.appendTail start opened copied).2 = true
      · rw [if_pos same]
      · rw [if_neg same]
  | openFile outcome => exact List.prefix_rfl
  | abortRewrite => exact List.prefix_rfl

/-- Nor does it remove bytes. -/
theorem content_grows (manager : AofManager) {call : AofCall} (stays : ¬ Replaces manager call) :
    manager.content.length ≤ (manager.step call).content.length := by
  cases call with
  | openFile outcome =>
      simp only [AofManager.step, AofManager.openFile]
      by_cases isOpen : manager.fd = true
      · rw [if_pos isOpen]
      · rw [if_neg isOpen]
        by_cases failed : (!outcome.opened) = true
        · rw [if_pos failed]
        · rw [if_neg failed]
          by_cases empty : outcome.sized = true ∧ manager.content = []
          · rw [if_pos empty]
            rw [empty.2]
            exact Nat.zero_le _
          · rw [if_neg empty]
            exact le_rfl
  | append record outcome =>
      simp only [AofManager.step, AofManager.append]
      by_cases torn : manager.torn = true
      · rw [if_pos torn]
      · rw [if_neg torn]
        by_cases failed : (!manager.fd) = true ∧ (!outcome.opened) = true
        · rw [if_pos failed]
        · rw [if_neg failed]
          by_cases short : outcome.written < record.encodeRecord.length
          · rw [if_pos short]
            by_cases truncated : outcome.written = 0 ∨ outcome.sized = true ∧
                outcome.truncated = true
            · rw [if_pos truncated]
              exact le_rfl
            · rw [if_neg truncated]
              simp [AofManager.content]
          · rw [if_neg short]
            simp [AofManager.content]
  | startRewrite opened written =>
      simp only [AofManager.step, AofManager.startRewrite]
      repeat' split
      all_goals exact le_rfl
  | appendRewrite record written =>
      simp only [AofManager.step, AofManager.appendRewrite]
      by_cases idle : (!manager.rewriteFd) = true
      · rw [if_pos idle]
      · rw [if_neg idle]
        exact le_rfl
  | appendTail start opened copied =>
      simp only [AofManager.step, AofManager.appendTail]
      by_cases absent : (!manager.rewriteFd) = true ∨ (!opened) = true ∨ manager.file = none
      · rw [if_pos absent]
      · rw [if_neg absent]
        exact le_rfl
  | commitRewrite outcome =>
      simp only [AofManager.step, AofManager.commitRewrite]
      by_cases idle : (!manager.rewriteFd) = true
      · rw [if_pos idle]
      · rw [if_neg idle]
        by_cases alive : (!outcome.synced) = true ∨ (!outcome.closed) = true ∨
            (!outcome.renamed) = true
        · rw [if_pos alive]
          exact le_rfl
        · rw [if_neg alive]
          apply absurd _ stays
          refine .inr ⟨outcome, rfl, ?_⟩
          simpa [AofManager.Commits, not_or] using And.intro idle alive
  | abortRewrite => exact le_rfl

theorem sound_call (sound : link.Sound nodeId) {call : AofCall} {inode : Nat}
    (proper : link.Proper (.call call inode)) :
    (link.step nodeId (.call call inode)).Sound nodeId := by
  rcases proper with ⟨careful, admits, fresh⟩
  have kept := AofManager.kept_step sound.kept admits careful
  by_cases replaces : Replaces link.manager call
  · have new := fresh replaces
    have inodeEq : (link.step nodeId (.call call inode)).inode = inode := if_pos replaces
    refine ⟨⟨kept, ?_, ?_⟩, ?_, ?_⟩
    · intro same
      exact absurd (inodeEq.symm.trans same.symm) new.1
    · intro same
      exact absurd (inodeEq.symm.trans same.symm) new.1
    · intro same
      exact absurd (inodeEq.symm.trans same.symm) new.2
    · intro same
      exact absurd (inodeEq.symm.trans same.symm) new.2
  · have inodeEq : (link.step nodeId (.call call inode)).inode = link.inode := if_neg replaces
    have grown := recorded_grows link.manager link.ledger replaces
    refine ⟨⟨kept, ?_, ?_⟩, ?_, ?_⟩
    · intro same
      exact (sound.peer (same.trans inodeEq)).mono grown (List.Subset.refl _)
    · intro same
      exact (sound.inside (same.trans inodeEq)).trans (content_grows link.manager replaces)
    · intro same
      exact (sound.saved (same.trans inodeEq)).mono grown (List.Subset.refl _)
    · intro same
      exact (sound.savedInside (same.trans inodeEq)).trans (content_grows link.manager replaces)

/-! ## Rounds -/

/-- The arrays behind an offset, as they stand in the file. -/
structure Ahead (nodeId : Nat) (log : List AofRecord) (accepted : List Item) (bytes : Bytes)
    (offset : Nat) (wire : List (List Bytes)) (part : Bytes) : Prop where
  within : ∀ tokens ∈ wire, Within tokens
  unfinished : Unfinished part
  layout : bytes.drop offset = wireBytes wire ++ part
  reached : ∀ count ≤ wire.length, ∀ more, accepted ⊆ more →
    (∀ tokens ∈ wire.take count, Covered nodeId tokens more) →
      Reached nodeId log more (offset + (wireBytes (wire.take count)).length)
  last : bytes ≠ [] → offset + (wireBytes wire).length = (aofBytes log).length

/-- Behind an offset that has been reached stands the rest of the log. -/
theorem ahead_of_reached {log : List AofRecord} {accepted : List Item} {torn : Bool}
    {bytes : Bytes} {offset : Nat} (shaped : Shaped Fits torn (some bytes) log)
    (fits : ∀ record ∈ log, record.Fits) (reached : Reached nodeId log accepted offset)
    (inside : offset ≤ bytes.length) :
    ∃ wire part, Ahead nodeId log accepted bytes offset wire part := by
  by_cases empty : bytes = []
  · have zero : offset = 0 := by
      simpa [empty] using inside
    refine ⟨[], [], ?_, unfinished_nil, ?_, ?_, fun filled => absurd empty filled⟩
    · intro tokens member
      cases member
    · simp [empty, wireBytes]
    · intro count _ more _ _
      rw [zero, List.take_nil]
      exact .inl rfl
  · rcases shaped.wire empty with ⟨part, unfinished, layout⟩
    rcases reached_iff.mp reached with ⟨done, small, stands, covered⟩
    have split : wireBytes (wireOf log) =
        wireBytes ((wireOf log).take done) ++ wireBytes ((wireOf log).drop done) := by
      rw [← wireBytes_append, List.take_append_drop]
    refine ⟨(wireOf log).drop done, part, ?_, unfinished, ?_, ?_, ?_⟩
    · intro tokens member
      exact within_wireOf fits tokens (List.mem_of_mem_drop member)
    · rw [layout, split, stands, List.append_assoc, List.drop_left]
    · intro count bound more included later
      rw [List.length_drop] at bound
      refine reached_iff.mpr ⟨done + count, by omega, ?_, ?_⟩
      · rw [List.take_add, wireBytes_append, List.length_append, stands]
      · intro tokens member
        rw [List.take_add] at member
        rcases List.mem_append.mp member with before | behind
        · exact (covered tokens before).mono included
        · exact later tokens behind
    · intro _
      rw [← wireBytes_wireOf, split, List.length_append, stands]

theorem Ahead.inside {log : List AofRecord} {accepted : List Item} {bytes part : Bytes}
    {offset : Nat} {wire : List (List Bytes)}
    (ahead : Ahead nodeId log accepted bytes offset wire part) (within : offset ≤ bytes.length)
    (count : Nat) : offset + (wireBytes (wire.take count)).length ≤ bytes.length := by
  have layout := congrArg List.length ahead.layout
  have split := congrArg (fun wire => (wireBytes wire).length) (List.take_append_drop count wire)
  simp only [wireBytes_append, List.length_append, List.length_drop] at layout split
  omega

/-- Before the connection the offset is one that has been reached in the file
that is read. -/
theorem aligned_reached (running : link.Running nodeId) (bytes : Bytes) :
    Reached nodeId link.ledger.log link.accepted
        (align link.worker.peer { inode := link.inode, bytes }).offset ∧
      (align link.worker.peer { inode := link.inode, bytes }).offset ≤ bytes.length := by
  rcases (align_cases link.worker.peer { inode := link.inode, bytes }).2.2 with
    zero | ⟨same, inside, offset⟩
  · rw [zero]
    exact ⟨.inl rfl, Nat.zero_le _⟩
  · rw [offset]
    exact ⟨running.peer same, inside⟩

theorem save_cases (peer : Peer) (saved : SavedOffset) {outcome : SaveOutcome}
    (uncut : ∀ length, outcome = .cut length → length ≤ (decimal peer.inode).length + 1) :
    save peer saved outcome = saved ∨ (save peer saved outcome).offset = 0 ∨
      save peer saved outcome = { inode := peer.inode, offset := peer.offset } := by
  cases outcome with
  | replaced => exact .inr (.inr rfl)
  | kept => exact .inl rfl
  | cut length => exact .inr (.inl (readState_take (uncut length rfl)))

/-- A round that comes to its delivery. -/
theorem turn_delivers (nodeId : Nat) (worker : PeerWorker) (file : AofFile)
    {outcome : ShipOutcome}
    (opened : outcome.opened = true)
    (joins : worker.peer.connected = true ∨ outcome.connects = true) :
    (worker.turn nodeId (some file) outcome).peer =
        settleAcked (shipRound nodeId worker.peer file outcome).1
          (shipRound nodeId worker.peer file outcome).2
          (delivered (shipRound nodeId worker.peer file outcome).2 outcome) ∧
      ((shipRound nodeId worker.peer file outcome).1.offset = (align worker.peer file).offset →
        outcome.Uncut (worker.turn nodeId (some file) outcome).peer.inode →
        ((worker.turn nodeId (some file) outcome).saved = worker.saved ∨
          (worker.turn nodeId (some file) outcome).saved.offset = 0 ∨
          (worker.turn nodeId (some file) outcome).saved =
            { inode := (worker.turn nodeId (some file) outcome).peer.inode
              offset := (worker.turn nodeId (some file) outcome).peer.offset })) := by
  have connected : (!(align worker.peer file).connected && !outcome.connects) = false := by
    rw [(align_cases worker.peer file).2.1]
    rcases joins with joined | connects
    · rw [joined]
      rfl
    · rw [connects, Bool.not_true, Bool.and_false]
  simp only [PeerWorker.turn, PeerWorker.ship, opened, connected, Bool.not_true, Bool.false_eq_true,
    if_false, true_and]
  intro still uncut
  simp only [still, ne_eq, not_true_eq_false, if_false]
  by_cases moved : ¬(settleAcked (shipRound nodeId worker.peer file outcome).1
      (shipRound nodeId worker.peer file outcome).2
      (delivered (shipRound nodeId worker.peer file outcome).2 outcome)).offset =
        (align worker.peer file).offset
  · rw [if_pos moved]
    exact save_cases _ _ uncut
  · rw [if_neg moved]
    exact .inl rfl

/-- What a round leaves: the offset of the peer has been reached and is not
before the one at which the file was read, and the state file holds it, no offset or what
it held before. -/
theorem turn_reached (running : link.Running nodeId) {bytes : Bytes}
    (present : link.manager.file = some bytes) {outcome : ShipOutcome}
    (opened : outcome.opened = true)
    (joins : link.worker.peer.connected = true ∨ outcome.connects = true) :
    (link.worker.turn nodeId link.file outcome).peer.inode = link.inode ∧
      (align link.worker.peer { inode := link.inode, bytes }).offset ≤
        (link.worker.turn nodeId link.file outcome).peer.offset ∧
      Reached nodeId link.ledger.log (link.accepted ++ link.turnAccepted nodeId outcome)
        (link.worker.turn nodeId link.file outcome).peer.offset ∧
      (link.worker.turn nodeId link.file outcome).peer.offset ≤ bytes.length ∧
      (outcome.Uncut link.inode →
        (link.worker.turn nodeId link.file outcome).saved = link.worker.saved ∨
        (link.worker.turn nodeId link.file outcome).saved.offset = 0 ∨
        (link.worker.turn nodeId link.file outcome).saved =
          { inode := (link.worker.turn nodeId link.file outcome).peer.inode
            offset := (link.worker.turn nodeId link.file outcome).peer.offset }) := by
  have aligned := aligned_reached running bytes
  have file : link.file = some { inode := link.inode, bytes } := by
    simp [Link.file, present]
  have shaped := running.kept.shaped
  rw [present] at shaped
  rcases ahead_of_reached shaped running.kept.log aligned.1 aligned.2 with ⟨wire, part, ahead⟩
  rcases shipRound_wire nodeId link.worker.peer { inode := link.inode, bytes } outcome
      ahead.within ahead.unfinished ahead.layout with
    ⟨ready, count, small, _, built, marks, items, same⟩
  have joined := connect_offset (align link.worker.peer { inode := link.inode, bytes })
  have start := (congrArg Peer.offset ready).trans joined.1
  rcases (settled_wire outcome start marks items same).1 with ⟨confirmed, few, offset, covered⟩
  rw [List.take_take, Nat.min_eq_left (few.trans (List.length_take_le _ _))] at offset covered
  rcases turn_delivers nodeId link.worker { inode := link.inode, bytes } opened joins with
    ⟨peer, saved⟩
  have accepted : link.turnAccepted nodeId outcome =
      acceptedItems (shipRound nodeId link.worker.peer { inode := link.inode, bytes } outcome).2
        outcome := by
    simp only [turnAccepted, file, opened]
    rcases joins with joined | connects
    · simp [joined]
    · simp [connects]
  have inode : (settleAcked
      (shipRound nodeId link.worker.peer { inode := link.inode, bytes } outcome).1
      (shipRound nodeId link.worker.peer { inode := link.inode, bytes } outcome).2
      (delivered (shipRound nodeId link.worker.peer { inode := link.inode, bytes } outcome).2
        outcome)).inode = link.inode :=
    ((congrArg Peer.inode ready).trans joined.2).trans (align_cases _ _).1
  rw [file]
  have turned : (link.worker.turn nodeId (some { inode := link.inode, bytes }) outcome).peer.inode =
      link.inode := by
    rw [peer, inode]
  rw [turned] at saved
  refine ⟨turned, ?_, ?_, ?_, ?_⟩
  · rw [peer, offset]
    exact Nat.le_add_right _ _
  · rw [peer, offset, accepted]
    apply ahead.reached confirmed
    · exact few.trans ((List.length_take_le _ _).trans small)
    · exact List.subset_append_left _ _
    · intro tokens member
      exact (covered tokens member).mono (List.subset_append_right _ _)
  · rw [peer, offset]
    exact ahead.inside aligned.2 confirmed
  · rw [turned]
    exact saved start

/-- A round that ends before its delivery. -/
theorem turn_stops (nodeId : Nat) (link : Link) (outcome : ShipOutcome)
    (stops : link.manager.file = none ∨ outcome.opened = false ∨
      (link.worker.peer.connected = false ∧ outcome.connects = false)) :
    (link.worker.turn nodeId link.file outcome).saved = link.worker.saved ∧
      ((link.worker.turn nodeId link.file outcome).peer = link.worker.peer ∨
        ∃ bytes, link.manager.file = some bytes ∧
          (link.worker.turn nodeId link.file outcome).peer =
            { align link.worker.peer { inode := link.inode, bytes } with room := [] }) := by
  simp only [Link.file, PeerWorker.turn, PeerWorker.ship]
  cases present : link.manager.file with
  | none => exact ⟨rfl, .inl rfl⟩
  | some bytes =>
      simp only [Option.map_some]
      cases opened : outcome.opened with
      | false => exact ⟨rfl, .inl rfl⟩
      | true =>
          rcases stops with absent | closed | ⟨alone, refused⟩
          · rw [present] at absent
            cases absent
          · rw [opened] at closed
            cases closed
          · simp only [(align_cases _ _).2.1, alone, refused, Bool.not_true, Bool.not_false,
              Bool.and_self, Bool.false_eq_true, if_false, if_true]
            exact ⟨trivial, .inr ⟨bytes, rfl, rfl⟩⟩

theorem turn_delivers_or_stops (link : Link) (outcome : ShipOutcome) :
    (∃ bytes, link.manager.file = some bytes ∧ outcome.opened = true ∧
        (link.worker.peer.connected = true ∨ outcome.connects = true)) ∨
      (link.manager.file = none ∨ outcome.opened = false ∨
        (link.worker.peer.connected = false ∧ outcome.connects = false)) := by
  cases link.manager.file with
  | none => exact .inr (.inl rfl)
  | some bytes =>
      cases outcome.opened with
      | false => exact .inr (.inr (.inl rfl))
      | true =>
          cases link.worker.peer.connected with
          | true => exact .inl ⟨bytes, rfl, rfl, .inl rfl⟩
          | false =>
              cases outcome.connects with
              | true => exact .inl ⟨bytes, rfl, rfl, .inr rfl⟩
              | false => exact .inr (.inr (.inr ⟨rfl, rfl⟩))

theorem running_turn (running : link.Running nodeId) (outcome : ShipOutcome) :
    (link.step nodeId (.turn outcome)).Running nodeId := by
  have more : link.accepted ⊆ link.accepted ++ link.turnAccepted nodeId outcome :=
    List.subset_append_left _ _
  rcases turn_delivers_or_stops link outcome with ⟨bytes, present, opened, joins⟩ | stops
  · rcases turn_reached running present opened joins with ⟨_, _, reached, bounded, _⟩
    have content : link.manager.content = bytes := by
      simp [AofManager.content, present]
    refine ⟨running.kept, fun _ => reached, ?_⟩
    simp only [step, content]
    intro _
    exact bounded
  · rcases (turn_stops nodeId link outcome stops).2 with still | ⟨bytes, present, moved⟩
    · refine ⟨running.kept, ?_, ?_⟩
      · simp only [step, still]
        intro here
        exact (running.peer here).mono List.prefix_rfl more
      · simp only [step, still]
        exact running.inside
    · refine ⟨running.kept, ?_, ?_⟩
      · simp only [step, moved]
        intro _
        exact (aligned_reached running bytes).1.mono List.prefix_rfl more
      · simp only [step, moved, AofManager.content, present]
        intro _
        exact (aligned_reached running bytes).2

theorem sound_turn (sound : link.Sound nodeId) {outcome : ShipOutcome}
    (uncut : outcome.Uncut link.inode) : (link.step nodeId (.turn outcome)).Sound nodeId := by
  have more : link.accepted ⊆ link.accepted ++ link.turnAccepted nodeId outcome :=
    List.subset_append_left _ _
  have saved : link.worker.saved.inode = link.inode → Reached nodeId link.ledger.log
      (link.accepted ++ link.turnAccepted nodeId outcome) link.worker.saved.offset :=
    fun same => (sound.saved same).mono List.prefix_rfl more
  rcases turn_delivers_or_stops link outcome with ⟨bytes, present, opened, joins⟩ | stops
  · rcases turn_reached sound.toRunning present opened joins with
      ⟨_, _, reached, bounded, cases⟩
    have content : link.manager.content = bytes := by
      simp [AofManager.content, present]
    refine ⟨running_turn sound.toRunning outcome, ?_, ?_⟩
    · simp only [step]
      rcases cases uncut with same | beginning | stored
      · rw [same]
        exact saved
      · rw [beginning]
        intro _
        exact .inl rfl
      · rw [stored]
        intro _
        exact reached
    · simp only [step]
      rcases cases uncut with same | beginning | stored
      · rw [same]
        exact sound.savedInside
      · rw [beginning]
        intro _
        exact Nat.zero_le _
      · rw [stored, content]
        intro _
        exact bounded
  · have same := (turn_stops nodeId link outcome stops).1
    refine ⟨running_turn sound.toRunning outcome, ?_, ?_⟩
    · simp only [step]
      rw [same]
      exact saved
    · simp only [step]
      rw [same]
      exact sound.savedInside

/-! ## Restarts -/

/-- Recovery removes a part of a record behind the complete ones. -/
theorem recover_filled {torn : Bool} {file : Option Bytes} {log : List AofRecord}
    (shaped : Shaped Fits torn file log) (fits : ∀ record ∈ log, record.Fits)
    (filled : file.getD [] ≠ []) : (AofRecovery.recover file).file = some (aofBytes log) := by
  cases shaped with
  | absent => exact absurd rfl filled
  | empty => exact absurd rfl filled
  | whole =>
      have recovered := recover_aofBytes fits encodes_aofHeader (List.nil_append _).symm
        (by decide)
      rw [List.append_nil] at recovered
      rw [recovered]
  | part _ record part missing isTorn known cut lacking =>
      rw [recover_aofBytes fits known.encodes cut lacking]

theorem recover_shaped {torn : Bool} {file : Option Bytes} {log : List AofRecord}
    (shaped : Shaped Fits torn file log) (fits : ∀ record ∈ log, record.Fits) :
    Shaped Fits false (AofRecovery.recover file).file log := by
  by_cases filled : file.getD [] = []
  · cases shaped with
    | absent => exact .absent
    | empty => exact .empty
    | whole => exact absurd filled (aofBytes_ne_nil log)
    | part _ record part missing isTorn known cut lacking =>
        exact absurd (List.append_eq_nil_iff.mp filled).1 (aofBytes_ne_nil log)
  · rw [recover_filled shaped fits filled]
    exact .whole log

/-- No offset that has been reached is behind what recovery leaves. -/
theorem recover_inside {manager : AofManager} {ledger : Ledger} (kept : manager.Kept Fits ledger)
    {accepted : List Item} {offset : Nat} (reached : Reached nodeId ledger.log accepted offset)
    (inside : offset ≤ manager.content.length) :
    offset ≤ ((AofRecovery.recover manager.file).file.getD []).length := by
  by_cases empty : manager.content = []
  · rw [empty] at inside
    exact inside.trans (Nat.zero_le _)
  · rw [recover_filled kept.shaped kept.log empty]
    exact reached.inside

theorem sound_restart (sound : link.Sound nodeId) : (link.step nodeId .restart).Sound nodeId := by
  have inside : link.worker.saved.inode = link.inode → link.worker.saved.offset ≤
      ((AofRecovery.recover link.manager.file).file.getD []).length :=
    fun same => recover_inside sound.kept (sound.saved same) (sound.savedInside same)
  refine ⟨⟨?_, sound.saved, inside⟩, sound.saved, inside⟩
  constructor
  · exact recover_shaped sound.kept.shaped sound.kept.log
  · intro busy
    cases busy
  · exact sound.kept.log
  · intro record member
    cases member

theorem sound_step (sound : link.Sound nodeId) {event : LinkEvent} (proper : link.Proper event) :
    (link.step nodeId event).Sound nodeId := by
  cases event with
  | call call inode => exact sound_call sound proper
  | turn outcome => exact sound_turn sound proper
  | restart => exact sound_restart sound

end Link

end SomniumDB
