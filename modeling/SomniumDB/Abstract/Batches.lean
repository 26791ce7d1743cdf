import SomniumDB.Storage.AofCodec
import SomniumDB.Storage.ReplicationWorker

/-! # What a batch of the log becomes

Read as arrays, the log is a list of token lists. A batch holds the next of
them that it has room for, and every mark of the pipeline stands behind one of
them and behind all commands that replicate what comes before it. -/

namespace SomniumDB

open Bytes Resp AofRecord Replicator

/-! ## Arrays and what may stand behind them -/

/-- The arrays as they stand in the file. -/
def wireBytes (wire : List (List Bytes)) : Bytes :=
  wire.flatMap encode

/-- Part of an array, with something missing. -/
def Unfinished (part : Bytes) : Prop :=
  ∃ tokens missing, Within tokens ∧ encode tokens = part ++ missing ∧ missing ≠ []

theorem wireBytes_append (front back : List (List Bytes)) :
    wireBytes (front ++ back) = wireBytes front ++ wireBytes back :=
  List.flatMap_append

theorem encode_ne_nil (tokens : List Bytes) : encode tokens ≠ [] := by
  simp [encode]

theorem Within.encodes {tokens : List Bytes} (within : Within tokens) :
    Encodes (encode tokens) tokens :=
  encodes_encode within.2 within.1

theorem unfinished_nil : Unfinished [] := by
  refine ⟨[], encode [], ⟨Nat.zero_le _, ?_⟩, rfl, encode_ne_nil []⟩
  intro arg member
  cases member

theorem Unfinished.take {part : Bytes} (unfinished : Unfinished part) (size : Nat) :
    Unfinished (part.take size) := by
  rcases unfinished with ⟨tokens, missing, within, whole, lacking⟩
  refine ⟨tokens, part.drop size ++ missing, within, ?_, ?_⟩
  · rw [whole, ← List.append_assoc, List.take_append_drop]
  · intro nothing
    exact lacking (List.append_eq_nil_iff.mp nothing).2

theorem Unfinished.waits {part : Bytes} (unfinished : Unfinished part) (front : Bytes) :
    parse (front ++ part) front.length = .needMore := by
  rcases unfinished with ⟨tokens, missing, within, whole, lacking⟩
  exact (Within.encodes within).cut front part missing whole lacking

/-- The front of a log is again some arrays with an unfinished one behind them. -/
theorem take_wireBytes {wire : List (List Bytes)} {part : Bytes}
    (within : ∀ tokens ∈ wire, Within tokens) (unfinished : Unfinished part) (size : Nat) :
    ∃ count ≤ wire.length, ∃ rest, Unfinished rest ∧
      (wireBytes wire ++ part).take size = wireBytes (wire.take count) ++ rest := by
  induction wire generalizing size with
  | nil => exact ⟨0, le_rfl, part.take size, unfinished.take size, rfl⟩
  | cons tokens wire induction =>
      have layout : wireBytes (tokens :: wire) ++ part =
          encode tokens ++ (wireBytes wire ++ part) := by
        simp [wireBytes]
      by_cases short : size < (encode tokens).length
      · refine ⟨0, Nat.zero_le _, (encode tokens).take size, ?_, ?_⟩
        · refine ⟨tokens, (encode tokens).drop size, within tokens List.mem_cons_self,
            (List.take_append_drop _ _).symm, ?_⟩
          simpa using short
        · rw [layout, List.take_append_of_le_length short.le]
          rfl
      · have others := induction (fun other member => within other (List.mem_cons_of_mem _ member))
          (size - (encode tokens).length)
        rcases others with ⟨count, small, rest, open', taken⟩
        refine ⟨count + 1, Nat.succ_le_succ small, rest, open', ?_⟩
        rw [layout, List.take_append, List.take_of_length_le (Nat.le_of_not_lt short), taken,
          List.take_succ_cons]
        simp [wireBytes]

/-! ## The pipeline -/

namespace Replicator

/-- The commands of a record are among the items. -/
def Covered (nodeId : Nat) (tokens : List Bytes) (items : List Item) : Prop :=
  ∀ args ∈ recordCommands nodeId tokens, Item.data (tokens.head?.getD []) args ∈ items

theorem Covered.mono {nodeId : Nat} {tokens : List Bytes} {items more : List Item}
    (covered : Covered nodeId tokens items) (included : items ⊆ more) :
    Covered nodeId tokens more :=
  fun args member => included (covered args member)

/-- Every mark is behind some of the arrays, and behind the commands that
replicate them. -/
structure Build.Marks (nodeId start : Nat) (wire : List (List Bytes)) (build : Build) : Prop where
  count : build.marks.length = wire.length
  stop : ((build.marks.getLast?.map Prod.snd).getD start) = start + (wireBytes wire).length
  sent : ∀ mark ∈ build.marks, mark.1 ≤ build.out.length
  whole : ∀ tokens ∈ wire, Covered nodeId tokens build.out
  behind : ∀ mark ∈ build.marks, ∃ count ≤ wire.length,
    mark.2 = start + (wireBytes (wire.take count)).length ∧
      ∀ tokens ∈ wire.take count, Covered nodeId tokens (build.out.take mark.1)

theorem Build.send_out (build : Build) (room : Bytes) (args : List Bytes) :
    ∃ items, (build.send room args).out = build.out ++ items ∧ Item.data room args ∈ items ∧
      (build.send room args).marks = build.marks := by
  simp only [Build.send]
  by_cases apart : room ≠ build.room
  · rw [if_pos apart]
    exact ⟨[.room room, .data room args], rfl, by simp, trivial⟩
  · rw [if_neg apart]
    exact ⟨[.data room args], rfl, by simp, trivial⟩

theorem Build.sendAll_out (room : Bytes) (commands : List (List Bytes)) (build : Build) :
    ∃ items, (commands.foldl (fun state args => state.send room args) build).out =
        build.out ++ items ∧
      (∀ args ∈ commands, Item.data room args ∈ items) ∧
      (commands.foldl (fun state args => state.send room args) build).marks = build.marks := by
  induction commands generalizing build with
  | nil => exact ⟨[], by simp, by simp, rfl⟩
  | cons first rest induction =>
      rcases build.send_out room first with ⟨items, out, here, marks⟩
      rcases induction (build.send room first) with ⟨more, later, others, same⟩
      refine ⟨items ++ more, ?_, ?_, ?_⟩
      · rw [List.foldl_cons, later, out, List.append_assoc]
      · intro args member
        rcases List.mem_cons.mp member with equal | member
        · rw [equal]
          exact List.mem_append_left _ here
        · exact List.mem_append_right _ (others args member)
      · rw [List.foldl_cons, same, marks]

/-- A record adds its commands and a mark. -/
theorem Build.record_out (build : Build) (nodeId : Nat) (tokens : List Bytes) (stop : Nat) :
    ∃ items, (build.record nodeId tokens stop).out = build.out ++ items ∧
      Covered nodeId tokens items ∧
      (build.record nodeId tokens stop).marks =
        build.marks ++ [((build.out ++ items).length, stop)] := by
  rcases Build.sendAll_out (tokens.head?.getD []) (recordCommands nodeId tokens) build with
    ⟨items, out, covered, marks⟩
  refine ⟨items, out, covered, ?_⟩
  simp only [Build.record]
  rw [marks, out]

theorem marks_record {nodeId start : Nat} {wire : List (List Bytes)} {build : Build}
    (marks : build.Marks nodeId start wire) (tokens : List Bytes) :
    (build.record nodeId tokens (start + (wireBytes (wire ++ [tokens])).length)).Marks
      nodeId start (wire ++ [tokens]) := by
  rcases build.record_out nodeId tokens (start + (wireBytes (wire ++ [tokens])).length) with
    ⟨items, out, covered, added⟩
  have kept : ∀ tokens : List Bytes, ∀ count ≤ build.out.length,
      Covered nodeId tokens (build.out.take count) →
        Covered nodeId tokens ((build.out ++ items).take count) := by
    intro other count small before
    rw [List.take_append_of_le_length small]
    exact before
  constructor
  · rw [added]
    simp [marks.count]
  · rw [added, List.getLast?_concat]
    rfl
  · intro mark member
    rw [added] at member
    rw [out]
    rcases List.mem_append.mp member with old | new
    · have small := marks.sent mark old
      rw [List.length_append]
      omega
    · rw [List.mem_singleton.mp new]
  · intro other member
    rw [out]
    rcases List.mem_append.mp member with earlier | here
    · exact (marks.whole other earlier).mono (List.subset_append_left _ _)
    · rw [List.mem_singleton.mp here]
      exact covered.mono (List.subset_append_right _ _)
  · intro mark member
    rw [added] at member
    rw [out]
    rcases List.mem_append.mp member with old | new
    · rcases marks.behind mark old with ⟨count, small, stop, before⟩
      have same : (wire ++ [tokens]).take count = wire.take count :=
        List.take_append_of_le_length small
      refine ⟨count, ?_, ?_, ?_⟩
      · rw [List.length_append]
        omega
      · rw [same, stop]
      · intro other inside
        rw [same] at inside
        exact kept other mark.1 (marks.sent mark old) (before other inside)
    · refine ⟨(wire ++ [tokens]).length, le_rfl, ?_, ?_⟩
      · rw [List.mem_singleton.mp new, List.take_length]
      · intro other inside
        rw [List.take_length] at inside
        rw [List.mem_singleton.mp new, List.take_length]
        rcases List.mem_append.mp inside with earlier | here
        · exact (marks.whole other earlier).mono (List.subset_append_left _ _)
        · rw [List.mem_singleton.mp here]
          exact covered.mono (List.subset_append_right _ _)

theorem marks_empty (nodeId start : Nat) (room : Bytes) :
    Build.Marks nodeId start [] { room } := by
  constructor <;> simp [wireBytes]

/-- The loop of `build` over arrays and an unfinished one. -/
theorem buildLoop_wire {nodeId offset : Nat} {done wire : List (List Bytes)} {part : Bytes}
    (within : ∀ tokens ∈ wire, Within tokens) (unfinished : Unfinished part) {fuel : Nat}
    (enough : wire.length < fuel) {build : Build} (marks : build.Marks nodeId offset done) :
    ∃ built : Build, built.Marks nodeId offset (done ++ wire) ∧
      buildLoop nodeId offset (wireBytes (done ++ wire) ++ part) fuel (wireBytes done).length
        build = (built, false) := by
  induction wire generalizing done fuel build with
  | nil =>
      cases fuel with
      | zero => exact absurd enough (Nat.not_lt_zero _)
      | succ fuel =>
          refine ⟨build, ?_, ?_⟩
          · rw [List.append_nil]
            exact marks
          · rw [List.append_nil, buildLoop, unfinished.waits]
  | cons tokens wire induction =>
      cases fuel with
      | zero => exact absurd enough (Nat.not_lt_zero _)
      | succ fuel =>
          have next := (Within.encodes (within tokens List.mem_cons_self)).whole (wireBytes done)
            (wireBytes wire ++ part)
          have split : done ++ tokens :: wire = done ++ [tokens] ++ wire := by
            simp
          have layout : wireBytes (done ++ tokens :: wire) ++ part =
              wireBytes done ++ encode tokens ++ (wireBytes wire ++ part) := by
            simp [wireBytes]
          have stop : (wireBytes done).length + (encode tokens).length =
              (wireBytes (done ++ [tokens])).length := by
            simp [wireBytes]
          rw [← layout, stop] at next
          rcases induction
              (fun other member => within other (List.mem_cons_of_mem _ member))
              (Nat.lt_of_succ_lt_succ enough) (marks_record marks tokens) with
            ⟨built, behind, looped⟩
          refine ⟨built, ?_, ?_⟩
          · rw [split]
            exact behind
          · rw [buildLoop, next]
            dsimp only
            rw [split]
            exact looped

theorem length_le_wireBytes (wire : List (List Bytes)) : wire.length ≤ (wireBytes wire).length := by
  induction wire with
  | nil => exact le_rfl
  | cons tokens wire induction =>
      have positive := List.length_pos_iff.mpr (encode_ne_nil tokens)
      have split : (wireBytes (tokens :: wire)).length =
          (encode tokens).length + (wireBytes wire).length := by
        simp [wireBytes]
      rw [List.length_cons]
      omega

/-- `build` on a buffer of arrays. -/
theorem build_wire (nodeId : Nat) (peer : Peer) {wire : List (List Bytes)} {part : Bytes}
    (within : ∀ tokens ∈ wire, Within tokens) (unfinished : Unfinished part) :
    (build nodeId peer (wireBytes wire ++ part)).1.Marks nodeId peer.offset wire ∧
      (build nodeId peer (wireBytes wire ++ part)).2 = false := by
  have enough : wire.length < (wireBytes wire ++ part).length + 1 := by
    have small := length_le_wireBytes wire
    rw [List.length_append]
    omega
  rcases buildLoop_wire within unfinished enough
      (marks_empty nodeId peer.offset peer.room) with ⟨built, marks, looped⟩
  simp only [build]
  rw [List.nil_append, show (wireBytes []).length = 0 from rfl] at looped
  rw [looped]
  exact ⟨marks, rfl⟩

/-- The batch at an array: some of the arrays behind it, and at least one if
there is one, however long. -/
theorem readBatch_wire (nodeId : Nat) {peer : Peer} {file : AofFile}
    {wire : List (List Bytes)} {part : Bytes} (within : ∀ tokens ∈ wire, Within tokens)
    (unfinished : Unfinished part)
    (behind : file.bytes.drop peer.offset = wireBytes wire ++ part) :
    ∃ count ≤ wire.length, (wire ≠ [] → 0 < count) ∧
      (readBatch nodeId peer file).1.Marks nodeId peer.offset (wire.take count) ∧
      (readBatch nodeId peer file).2 = false := by
  have whole := build_wire nodeId peer within unfinished
  simp only [readBatch]
  rw [behind]
  by_cases grows :
      (build nodeId peer (List.take kMaxBatchBytes (wireBytes wire ++ part))).1.marks = [] ∧
      (!(build nodeId peer (List.take kMaxBatchBytes (wireBytes wire ++ part))).2) = true ∧
      kMaxBatchBytes < (wireBytes wire ++ part).length
  · rw [if_pos grows]
    refine ⟨wire.length, le_rfl, List.length_pos_iff.mpr, ?_⟩
    rw [List.take_length]
    exact whole
  · rw [if_neg grows]
    by_cases small : (wireBytes wire ++ part).length ≤ kMaxBatchBytes
    · refine ⟨wire.length, le_rfl, List.length_pos_iff.mpr, ?_⟩
      rw [List.take_of_length_le small, List.take_length]
      exact whole
    · rcases take_wireBytes within unfinished kMaxBatchBytes with
        ⟨count, inside, rest, unread, taken⟩
      have front : ∀ tokens ∈ wire.take count, Within tokens :=
        fun tokens member => within tokens (List.mem_of_mem_take member)
      have built := build_wire nodeId peer front unread
      refine ⟨count, inside, ?_, ?_⟩
      · intro _
        rw [taken, built.2] at grows
        by_contra zero
        apply grows
        refine ⟨?_, rfl, Nat.lt_of_not_le small⟩
        rw [← List.length_eq_zero_iff, built.1.count, Nat.eq_zero_of_not_pos zero]
        rfl
      · rw [taken]
        exact built

end Replicator

end SomniumDB
