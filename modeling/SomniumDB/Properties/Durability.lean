import SomniumDB.Storage.AofSync

/-! # What is known to be durable is durable

The sync runs while the file may change. What it notes beforehand is good only for the
generation in which it was noted; within a generation the file stays the same one and
only grows. -/

namespace SomniumDB

open Bytes AofRecord

namespace AofSync

variable {aof after : AofSync} {policy : SyncPolicy}

/-- What a sync that is under way has noted. -/
structure Noted (aof : AofSync) (capture : Capture) : Prop where
  older : capture.generation ≤ aof.generation
  /-- In the generation of the capture the file is still the same and has not shrunk. -/
  current : capture.generation = aof.generation →
    capture.fileId = aof.fileId ∧ capture.offset ≤ aof.manager.size
  known : capture.fileId ≤ aof.fileId
  within : capture.offset ≤ capture.present
  present : capture.fileId = aof.fileId → capture.present ≤ aof.manager.content.length

def WorkerNoted (aof : AofSync) : Worker → Prop
  | .idle => True
  | .syncing capture => Noted aof capture
  | .returned capture ok => Noted aof capture ∧
      (ok = true → capture.present ≤ aof.covered capture.fileId)

structure Durable (aof : AofSync) : Prop where
  size : aof.manager.size ≤ aof.manager.content.length
  synced : aof.synced ≤ aof.manager.size
  covered : aof.synced ≤ aof.covered aof.fileId
  within : aof.covered aof.fileId ≤ aof.manager.content.length
  /-- No file has had the next numbers. -/
  fresh : ∀ id, aof.fileId < id → aof.covered id = 0
  worker : WorkerNoted aof aof.worker

/-- A call on the manager: within a generation the file stays and its size does not
decrease, and what has been covered stays covered. -/
structure Advances (aof after : AofSync) : Prop where
  worker : after.worker = aof.worker
  generation : aof.generation ≤ after.generation
  current : aof.generation = after.generation →
    aof.fileId = after.fileId ∧ aof.manager.size ≤ after.manager.size
  file : aof.fileId = after.fileId ∧
      aof.manager.content.length ≤ after.manager.content.length ∨
    aof.fileId < after.fileId
  covered : ∀ id, aof.covered id ≤ after.covered id
  fresh : ∀ id, after.fileId < id → after.covered id = aof.covered id

theorem Noted.advance {capture : Capture} (noted : Noted aof capture)
    (advances : Advances aof after) : Noted after capture := by
  rcases advances with ⟨_, generation, current, file, _, _⟩
  refine ⟨noted.older.trans generation, ?_, ?_, noted.within, ?_⟩
  · intro same
    have before : capture.generation = aof.generation := by
      have := noted.older
      omega
    rcases noted.current before with ⟨sameFile, within⟩
    rcases current (by omega) with ⟨kept, grown⟩
    exact ⟨sameFile.trans kept, within.trans grown⟩
  · have := noted.known
    omega
  · intro same
    have := noted.known
    rcases file with ⟨kept, grown⟩ | newer
    · exact (noted.present (same.trans kept.symm)).trans grown
    · omega

theorem WorkerNoted.advance {worker : Worker} (noted : WorkerNoted aof worker)
    (advances : Advances aof after) : WorkerNoted after worker := by
  cases worker with
  | idle => trivial
  | syncing capture => exact Noted.advance noted advances
  | returned capture ok =>
      exact ⟨noted.1.advance advances, fun success => (noted.2 success).trans (advances.covered _)⟩

theorem le_cover (aof : AofSync) (id present other : Nat) :
    aof.covered other ≤ (aof.cover id present).covered other := by
  unfold cover
  dsimp only
  by_cases same : other = id
  · rw [if_pos same]
    rw [same]
    exact le_max_left _ _
  · rw [if_neg same]

theorem cover_self (aof : AofSync) (id present : Nat) :
    (aof.cover id present).covered id = max (aof.covered id) present := by
  unfold cover
  dsimp only
  rw [if_pos rfl]

theorem Durable.advance (durable : aof.Durable) (advances : Advances aof after)
    (size : after.manager.size ≤ after.manager.content.length)
    (synced : after.synced ≤ after.manager.size)
    (covered : after.synced ≤ after.covered after.fileId)
    (within : after.covered after.fileId ≤ after.manager.content.length) : after.Durable := by
  refine ⟨size, synced, covered, within, ?_, ?_⟩
  · intro id newer
    have := advances.file
    rw [advances.fresh id newer]
    exact durable.fresh id (by omega)
  · rw [advances.worker]
    exact durable.worker.advance advances

theorem Advances.refl : Advances aof aof :=
  ⟨rfl, le_rfl, fun _ => ⟨rfl, le_rfl⟩, .inl ⟨rfl, le_rfl⟩, fun _ => le_rfl, fun _ _ => rfl⟩

theorem Advances.trans {third : AofSync} (first : Advances aof after)
    (second : Advances after third) : Advances aof third := by
  refine ⟨second.worker.trans first.worker, first.generation.trans second.generation, ?_, ?_, ?_,
    ?_⟩
  · intro same
    have left := first.generation
    have right := second.generation
    rcases first.current (by omega) with ⟨kept, grown⟩
    rcases second.current (by omega) with ⟨again, more⟩
    exact ⟨kept.trans again, grown.trans more⟩
  · have left := first.file
    have right := second.file
    omega
  · intro id
    exact (first.covered id).trans (second.covered id)
  · intro id newer
    have right := second.file
    exact (second.fresh id newer).trans (first.fresh id (by omega))

/-! ## The calls -/

theorem advances_syncLocked (aof : AofSync) (ok : Bool) : Advances aof (aof.syncLocked ok) := by
  unfold syncLocked
  by_cases same : ok = true
  · rw [if_pos same]
    refine ⟨rfl, le_rfl, fun _ => ⟨rfl, le_rfl⟩, .inl ⟨rfl, le_rfl⟩, le_cover _ _ _, ?_⟩
    intro id newer
    exact if_neg (Nat.ne_of_gt newer)
  · rw [if_neg same]
    exact .refl

theorem Durable.syncLocked (durable : aof.Durable) (ok : Bool) : (aof.syncLocked ok).Durable := by
  apply durable.advance (advances_syncLocked aof ok)
  all_goals
    unfold AofSync.syncLocked
    split
  · exact durable.size
  · exact durable.size
  · exact le_rfl
  · exact durable.synced
  · dsimp only
    change _ ≤ (aof.cover aof.fileId _).covered aof.fileId
    rw [cover_self]
    exact durable.size.trans (le_max_right _ _)
  · exact durable.covered
  · change (aof.cover aof.fileId _).covered aof.fileId ≤ aof.manager.content.length
    rw [cover_self]
    exact max_le durable.within le_rfl
  · exact durable.within

/-- A record is appended in full, or the size stays. -/
theorem append_cases (manager : AofManager) (record : AofRecord) (outcome : AppendOutcome)
    (tried : (manager.torn || !manager.fd && !outcome.opened) = false) :
    ∃ grown, ((manager.append record outcome).1.content.length =
        manager.content.length + grown) ∧
      (outcome.written < record.encodeRecord.length →
        (manager.append record outcome).1.size = manager.size) ∧
      (¬outcome.written < record.encodeRecord.length →
        (manager.append record outcome).1.size = manager.size + grown) := by
  rw [Bool.or_eq_false_iff] at tried
  have opened : ¬((!manager.fd) = true ∧ (!outcome.opened) = true) := by
    rw [← Bool.and_eq_true, tried.2]
    decide
  unfold AofManager.append
  dsimp only
  rw [if_neg (by rw [tried.1]; decide), if_neg opened]
  split
  · rename_i short
    by_cases truncated : outcome.written = 0 ∨ outcome.sized = true ∧ outcome.truncated = true
    · rw [if_pos truncated]
      exact ⟨0, rfl, fun _ => rfl, fun full => absurd short full⟩
    · rw [if_neg truncated]
      refine ⟨_, List.length_append, fun _ => rfl, fun full => absurd short full⟩
  · rename_i full
    exact ⟨_, List.length_append, fun short => absurd short full, fun _ => rfl⟩

/-- The file is open, if need be again. -/
theorem advances_ready (aof : AofSync) :
    Advances aof (if aof.manager.fd then aof
      else { aof with generation := aof.generation + 1, synced := 0 }) := by
  by_cases opened : aof.manager.fd = true
  · rw [if_pos opened]
    exact .refl
  · rw [if_neg opened]
    exact ⟨rfl, Nat.le_succ _, fun same => absurd same (Nat.ne_of_lt (Nat.lt_succ_self _)),
      .inl ⟨rfl, le_rfl⟩, fun _ => le_rfl, fun _ _ => rfl⟩

theorem Durable.ready (durable : aof.Durable) :
    Durable (if aof.manager.fd then aof
      else { aof with generation := aof.generation + 1, synced := 0 }) := by
  apply durable.advance (advances_ready aof)
  all_goals split
  · exact durable.size
  · exact durable.size
  · exact durable.synced
  · exact Nat.zero_le _
  · exact durable.covered
  · exact Nat.zero_le _
  · exact durable.within
  · exact durable.within

theorem Durable.append (durable : aof.Durable) (record : AofRecord) (outcome : AppendOutcome) :
    (aof.append policy record outcome).Durable := by
  unfold AofSync.append
  cases tried : (aof.manager.torn || !aof.manager.fd && !outcome.opened) with
  | true => exact durable
  | false =>
      rcases append_cases aof.manager record outcome tried with ⟨grown, length, short, full⟩
      have ready := durable.ready
      have sameManager : (if aof.manager.fd then aof
          else { aof with generation := aof.generation + 1, synced := 0 }).manager =
          aof.manager := by
        by_cases isOpen : aof.manager.fd = true
        · rw [if_pos isOpen]
        · rw [if_neg isOpen]
      generalize (if aof.manager.fd then aof
        else { aof with generation := aof.generation + 1, synced := 0 }) = opened at ready sameManager
      dsimp only
      rw [if_neg (by decide)]
      have size := sameManager ▸ ready.size
      have synced := sameManager ▸ ready.synced
      have within := sameManager ▸ ready.within
      by_cases partly : outcome.written < record.encodeRecord.length
      · have same := short partly
        rw [if_pos partly]
        apply ready.advance
        · refine ⟨rfl, Nat.le_succ _, ?_, .inl ⟨rfl, ?_⟩, fun _ => le_rfl, fun _ _ => rfl⟩
          · intro equal
            exact absurd equal (Nat.ne_of_lt (Nat.lt_succ_self _))
          · rw [sameManager]
            dsimp only
            omega
        all_goals dsimp only
        · omega
        · omega
        · exact ready.covered
        · omega
      · have more := full partly
        rw [if_neg partly]
        have appended : Durable
            { opened with manager := (aof.manager.append record outcome).1 } := by
          apply ready.advance
          · refine ⟨rfl, le_rfl, fun _ => ⟨rfl, ?_⟩, .inl ⟨rfl, ?_⟩, fun _ => le_rfl,
      fun _ _ => rfl⟩
            all_goals
              rw [sameManager]
              dsimp only
              omega
          all_goals dsimp only
          · omega
          · omega
          · exact ready.covered
          · omega
        by_cases always : policy = .always
        · rw [if_pos always]
          exact appended.syncLocked outcome.synced
        · rw [if_neg always]
          exact appended

/-- What concerns neither the log nor its size. -/
theorem Durable.manager (durable : aof.Durable) {manager : AofManager}
    (content : manager.content = aof.manager.content) (size : manager.size = aof.manager.size) :
    Durable { aof with manager } := by
  apply durable.advance
  · refine ⟨rfl, le_rfl, fun _ => ⟨rfl, ?_⟩, .inl ⟨rfl, ?_⟩, fun _ => le_rfl,
      fun _ _ => rfl⟩
    · exact size.ge
    · exact (congrArg List.length content).ge
  all_goals dsimp only
  · rw [size, content]
    exact durable.size
  · rw [size]
    exact durable.synced
  · exact durable.covered
  · rw [content]
    exact durable.within

/-- Unless the rewritten file takes the name, the log stays as it is. -/
theorem commit_kept (manager : AofManager) (outcome : CommitOutcome)
    (kept : (!manager.rewriteFd || !outcome.synced || !outcome.closed || !outcome.renamed) = true) :
    (manager.commitRewrite outcome).1.content = manager.content ∧
      (manager.commitRewrite outcome).1.size = manager.size ∧
      (manager.commitRewrite outcome).1.fd = manager.fd := by
  unfold AofManager.commitRewrite
  by_cases idle : (!manager.rewriteFd) = true
  · rw [if_pos idle]
    exact ⟨rfl, rfl, rfl⟩
  · rw [if_neg idle]
    rw [if_pos]
    · exact ⟨rfl, rfl, rfl⟩
    · simpa [idle, or_assoc] using kept

theorem commit_replaced (manager : AofManager) (outcome : CommitOutcome)
    (replaced : (!manager.rewriteFd || !outcome.synced || !outcome.closed || !outcome.renamed) =
      false) :
    (manager.commitRewrite outcome).1.size ≤ (manager.commitRewrite outcome).1.content.length ∧
      (manager.commitRewrite outcome).1.fd = outcome.reopened := by
  simp only [Bool.or_eq_false_iff] at replaced
  rcases replaced with ⟨⟨⟨started, synced⟩, closed⟩, renamed⟩
  unfold AofManager.commitRewrite
  rw [if_neg (by rw [started]; decide), if_neg (by simp [synced, closed, renamed])]
  refine ⟨?_, rfl⟩
  dsimp only
  by_cases sized : outcome.sized = true
  · rw [if_pos sized]
    exact le_rfl
  · rw [if_neg sized]
    exact Nat.zero_le _

/-- The rewritten file takes the name, or everything stays. -/
theorem Durable.commitRewrite (durable : aof.Durable) (outcome : CommitOutcome) :
    (aof.commitRewrite outcome).Durable := by
  unfold AofSync.commitRewrite
  cases kept : (!aof.manager.rewriteFd || !outcome.synced || !outcome.closed ||
      !outcome.renamed) with
  | true =>
      rcases commit_kept aof.manager outcome kept with ⟨content, size, _⟩
      exact durable.manager content size
  | false =>
      rcases commit_replaced aof.manager outcome kept with ⟨size, _⟩
      have nothing : aof.covered (aof.fileId + 1) = 0 :=
        durable.fresh _ (Nat.lt_succ_self _)
      generalize (aof.manager.commitRewrite outcome).1 = manager at size
      dsimp only
      rw [if_neg (by decide)]
      have length : (cover { aof with manager, fileId := aof.fileId + 1 } (aof.fileId + 1)
          manager.content.length).covered (aof.fileId + 1) = manager.content.length := by
        rw [cover_self]
        change max (aof.covered (aof.fileId + 1)) _ = _
        rw [nothing, Nat.zero_max]
      apply durable.advance
      · refine ⟨rfl, Nat.le_succ _, ?_, .inr (Nat.lt_succ_self _), ?_, ?_⟩
        · intro equal
          exact absurd equal (Nat.ne_of_lt (Nat.lt_succ_self _))
        · exact le_cover { aof with manager, fileId := aof.fileId + 1 } _ _
        · intro id newer
          exact if_neg (Nat.ne_of_gt newer)
      · exact size
      · dsimp only
        by_cases reopened : outcome.reopened = true
        · rw [if_pos reopened]
          exact le_rfl
        · rw [if_neg reopened]
          exact Nat.zero_le _
      · change _ ≤ (cover _ _ _).covered (aof.fileId + 1)
        rw [length]
        dsimp only
        by_cases reopened : outcome.reopened = true
        · rw [if_pos reopened]
          exact size
        · rw [if_neg reopened]
          exact Nat.zero_le _
      · change (cover _ _ _).covered (aof.fileId + 1) ≤ _
        rw [length]
        exact le_rfl

/-- The calls that only work on the temporary file. -/
theorem step_kept (manager : AofManager) (call : AofCall)
    (openFile : ∀ outcome, call ≠ .openFile outcome)
    (append : ∀ record outcome, call ≠ .append record outcome)
    (commit : ∀ outcome, call ≠ .commitRewrite outcome) :
    (manager.step call).content = manager.content ∧ (manager.step call).size = manager.size ∧
      (manager.step call).fd = manager.fd := by
  cases call with
  | openFile outcome => exact absurd rfl (openFile outcome)
  | append record outcome => exact absurd rfl (append record outcome)
  | commitRewrite outcome => exact absurd rfl (commit outcome)
  | startRewrite opened written =>
      unfold AofManager.step AofManager.startRewrite
      dsimp only
      by_cases rewriteFd : manager.rewriteFd = true
      · rw [if_pos rewriteFd]
        exact ⟨rfl, rfl, rfl⟩
      · rw [if_neg rewriteFd]
        by_cases failed : (!opened) = true
        · rw [if_pos failed]
          exact ⟨rfl, rfl, rfl⟩
        · rw [if_neg failed]
          by_cases short : written < aofHeader.length
          · rw [if_pos short]
            exact ⟨rfl, rfl, rfl⟩
          · rw [if_neg short]
            exact ⟨rfl, rfl, rfl⟩
  | appendRewrite record written =>
      unfold AofManager.step AofManager.appendRewrite
      dsimp only
      by_cases idle : (!manager.rewriteFd) = true
      · rw [if_pos idle]
        exact ⟨rfl, rfl, rfl⟩
      · rw [if_neg idle]
        exact ⟨rfl, rfl, rfl⟩
  | appendTail start opened copied =>
      unfold AofManager.step AofManager.appendTail
      dsimp only
      by_cases absent : (!manager.rewriteFd) = true ∨ (!opened) = true ∨ manager.file = none
      · rw [if_pos absent]
        exact ⟨rfl, rfl, rfl⟩
      · rw [if_neg absent]
        exact ⟨rfl, rfl, rfl⟩
  | abortRewrite => exact ⟨rfl, rfl, rfl⟩

/-! ## The thread -/

theorem Durable.capture (durable : aof.Durable) (dup : Bool) : (aof.capture dup).Durable := by
  unfold AofSync.capture
  split
  · by_cases unsynced : aof.manager.fd = true ∧ aof.synced < aof.manager.size
    · rw [if_pos unsynced]
      refine ⟨durable.size, durable.synced, durable.covered, durable.within, durable.fresh, ?_⟩
      exact ⟨le_rfl, fun _ => ⟨rfl, le_rfl⟩, le_rfl, durable.size, fun _ => le_rfl⟩
    · rw [if_neg unsynced]
      exact durable
  · exact durable

/-- A sync that has returned covers what it noted, in the file that it noted. -/
theorem Durable.syncReturns (durable : aof.Durable) (ok : Bool) :
    (aof.syncReturns ok).Durable := by
  unfold AofSync.syncReturns
  cases working : aof.worker with
  | idle => exact durable
  | returned noted result => exact durable
  | syncing noted =>
      have kept : Noted aof noted := by
        have := durable.worker
        rw [working] at this
        exact this
      dsimp only
      by_cases synced : (noted.dup && ok) = true
      · rw [if_pos synced]
        refine ⟨durable.size, durable.synced, ?_, ?_, ?_, ?_⟩
        · exact durable.covered.trans (le_cover aof _ _ _)
        · change (if aof.fileId = noted.fileId then max (aof.covered noted.fileId) noted.present
            else aof.covered aof.fileId) ≤ aof.manager.content.length
          by_cases same : aof.fileId = noted.fileId
          · rw [if_pos same]
            rw [← same]
            exact max_le durable.within (kept.present same.symm)
          · rw [if_neg same]
            exact durable.within
        · intro id newer
          have older := kept.known
          change (if id = noted.fileId then _ else aof.covered id) = 0
          change aof.fileId < id at newer
          rw [if_neg (by omega)]
          exact durable.fresh id newer
        · refine ⟨⟨kept.older, kept.current, kept.known, kept.within, kept.present⟩, ?_⟩
          intro _
          change noted.present ≤ (aof.cover noted.fileId noted.present).covered noted.fileId
          rw [cover_self]
          exact le_max_right _ _
      · rw [if_neg synced]
        refine ⟨durable.size, durable.synced, durable.covered, durable.within, durable.fresh, ?_⟩
        refine ⟨⟨kept.older, kept.current, kept.known, kept.within, kept.present⟩, ?_⟩
        rintro ⟨⟩

/-- The outcome is good only for the generation that was noted. -/
theorem Durable.publish (durable : aof.Durable) : aof.publish.Durable := by
  unfold AofSync.publish
  cases working : aof.worker with
  | idle => exact durable
  | syncing noted => exact durable
  | returned noted ok =>
      obtain ⟨kept, covered⟩ : Noted aof noted ∧
          (ok = true → noted.present ≤ aof.covered noted.fileId) := by
        have := durable.worker
        rw [working] at this
        exact this
      refine ⟨durable.size, ?_, ?_, durable.within, durable.fresh, trivial⟩
      all_goals
        dsimp only
        split
      · rename_i good
        exact (kept.current good.2.1).2
      · exact durable.synced
      · rename_i good
        rw [← (kept.current good.2.1).1]
        exact kept.within.trans (covered good.2.2.1)
      · exact durable.covered

/-! ## Starting up -/

/-- Before the file is opened for appending everything in it is durable. -/
structure Started (aof : AofSync) : Prop where
  worker : aof.worker = .idle
  covered : aof.manager.content.length ≤ aof.covered aof.fileId
  opened : aof.manager.fd = true → aof.manager.size ≤ aof.synced
  closed : aof.manager.fd = false → aof.synced = 0

theorem durable_startup (file : Option Bytes) : (startup file).Durable := by
  refine ⟨Nat.zero_le _, le_rfl, Nat.zero_le _, ?_, ?_, trivial⟩
  · exact le_rfl
  · intro id newer
    exact if_neg (Nat.ne_of_gt newer)

theorem started_startup (file : Option Bytes) : (startup file).Started :=
  ⟨rfl, le_rfl, fun _ => le_rfl, fun _ => rfl⟩

theorem Started.commitRewrite (started : aof.Started) (outcome : CommitOutcome) :
    (aof.commitRewrite outcome).Started := by
  unfold AofSync.commitRewrite
  cases kept : (!aof.manager.rewriteFd || !outcome.synced || !outcome.closed ||
      !outcome.renamed) with
  | true =>
      rcases commit_kept aof.manager outcome kept with ⟨content, size, fd⟩
      refine ⟨started.worker, ?_, ?_, ?_⟩
      · exact (congrArg List.length content).le.trans started.covered
      · intro opened
        exact size.le.trans (started.opened (fd ▸ opened))
      · intro closed
        exact started.closed (fd ▸ closed)
  | false =>
      rcases commit_replaced aof.manager outcome kept with ⟨_, fd⟩
      refine ⟨started.worker, ?_, ?_, ?_⟩
      · change _ ≤ (cover _ (aof.fileId + 1) _).covered (aof.fileId + 1)
        rw [cover_self]
        exact le_max_right _ _
      · intro opened
        change (aof.manager.commitRewrite outcome).1.fd = true at opened
        change _ ≤ ite (outcome.reopened = true) _ _
        rw [← fd, opened, if_pos rfl]
        exact le_rfl
      · intro closed
        change (aof.manager.commitRewrite outcome).1.fd = false at closed
        change ite (outcome.reopened = true) _ _ = _
        rw [← fd, closed, if_neg (by decide)]

theorem Durable.openFile (durable : aof.Durable) (started : aof.Started)
    (outcome : OpenOutcome) : (aof.openFile outcome).Durable := by
  unfold AofSync.openFile
  cases skipped : (aof.manager.fd || !outcome.opened) with
  | true => exact durable
  | false =>
      rw [Bool.or_eq_false_iff] at skipped
      have nothing := started.closed skipped.1
      have closed : ¬aof.manager.fd = true := by
        rw [skipped.1]
        decide
      have opens : ¬(!outcome.opened) = true := by
        rw [skipped.2]
        decide
      rw [if_neg (by decide)]
      unfold AofManager.openFile
      rw [if_neg closed, if_neg opens]
      have newer : aof.generation ≠ aof.generation + 1 := Nat.ne_of_lt (Nat.lt_succ_self _)
      dsimp only
      by_cases empty : outcome.sized = true ∧ aof.manager.content = []
      · have uncovered : aof.covered aof.fileId = 0 := by
          have := durable.within
          rw [empty.2] at this
          exact Nat.le_zero.mp this
        rw [if_pos empty, if_pos empty]
        by_cases short : outcome.written < aofHeader.length
        · simp only [if_pos short]
          apply durable.advance
          · refine ⟨rfl, Nat.le_succ _, fun same => absurd same newer, .inl ⟨rfl, ?_⟩,
              fun _ => le_rfl, fun _ _ => rfl⟩
            rw [empty.2]
            exact Nat.zero_le _
          · exact Nat.zero_le _
          · exact nothing.le
          · exact nothing.le.trans (Nat.zero_le _)
          · exact uncovered.le.trans (Nat.zero_le _)
        · simp only [if_neg short]
          apply Durable.syncLocked
          apply durable.advance
          · refine ⟨rfl, Nat.le_succ _, fun same => absurd same newer, .inl ⟨rfl, ?_⟩,
              fun _ => le_rfl, fun _ _ => rfl⟩
            rw [empty.2]
            exact Nat.zero_le _
          · exact le_rfl
          · exact nothing.le.trans (Nat.zero_le _)
          · exact nothing.le.trans (Nat.zero_le _)
          · exact uncovered.le.trans (Nat.zero_le _)
      · rw [if_neg empty, if_neg empty]
        have base : (if outcome.sized = true then aof.manager.content.length else 0) ≤
            aof.manager.content.length := by
          by_cases sized : outcome.sized = true
          · rw [if_pos sized]
          · rw [if_neg sized]
            exact Nat.zero_le _
        apply durable.advance
        · exact ⟨rfl, Nat.le_succ _, fun same => absurd same newer, .inl ⟨rfl, le_rfl⟩,
            fun _ => le_rfl, fun _ _ => rfl⟩
        · exact base
        · exact le_rfl
        · exact base.trans started.covered
        · exact durable.within

/-! ## Every order of the steps -/

theorem Durable.step (durable : aof.Durable) {step : SyncStep} (notOpen : ¬step.IsOpen) :
    (aof.step policy step).Durable := by
  cases step with
  | capture dup => exact durable.capture dup
  | syncReturns ok => exact durable.syncReturns ok
  | publish => exact durable.publish
  | call call =>
      have kept := step_kept aof.manager call
      cases call with
      | openFile outcome => exact absurd trivial notOpen
      | append record outcome => exact durable.append record outcome
      | commitRewrite outcome => exact durable.commitRewrite outcome
      | _ =>
          rcases kept (by simp) (by simp) (by simp) with ⟨content, size, _⟩
          exact durable.manager content size

theorem Durable.run (durable : aof.Durable) (steps : List SyncStep)
    (notOpen : ∀ step ∈ steps, ¬step.IsOpen) : (aof.run policy steps).Durable := by
  induction steps generalizing aof with
  | nil => exact durable
  | cons step rest induction =>
      exact induction (durable.step (notOpen step List.mem_cons_self))
        fun other member => notOpen other (List.mem_cons_of_mem _ member)

theorem not_isOpen {step : SyncStep} (migrates : step.Migrates) : ¬step.IsOpen := by
  rintro opens
  cases step with
  | call call =>
      cases call with
      | openFile outcome => exact migrates
      | _ => exact opens
  | _ => exact opens

theorem Started.step (started : aof.Started) {step : SyncStep} (migrates : step.Migrates) :
    (aof.step policy step).Started := by
  have idle := started.worker
  cases step with
  | capture dup =>
      change (aof.capture dup).Started
      unfold AofSync.capture
      rw [idle]
      dsimp only
      rw [if_neg]
      · exact started
      · rintro ⟨opened, pending⟩
        have := started.opened opened
        omega
  | syncReturns ok =>
      change (aof.syncReturns ok).Started
      unfold AofSync.syncReturns
      rw [idle]
      exact started
  | publish =>
      change aof.publish.Started
      unfold AofSync.publish
      rw [idle]
      exact started
  | call call =>
      have kept := step_kept aof.manager call
      cases call with
      | openFile outcome => exact migrates.elim
      | append record outcome => exact migrates.elim
      | commitRewrite outcome => exact started.commitRewrite outcome
      | _ =>
          rcases kept (by simp) (by simp) (by simp) with ⟨content, size, fd⟩
          refine ⟨idle, ?_, ?_, ?_⟩
          · exact (congrArg List.length content).le.trans started.covered
          · intro opened
            exact size.le.trans (started.opened (fd ▸ opened))
          · intro closed
            exact started.closed (fd ▸ closed)

theorem Started.run (started : aof.Started) (steps : List SyncStep)
    (migrates : ∀ step ∈ steps, step.Migrates) : (aof.run policy steps).Started := by
  induction steps generalizing aof with
  | nil => exact started
  | cons step rest induction =>
      exact induction (started.step (migrates step List.mem_cons_self))
        fun other member => migrates other (List.mem_cons_of_mem _ member)

theorem durable_process (policy : SyncPolicy) (file : Option Bytes) {steps : List SyncStep}
    (process : ProcessSteps steps) : ((startup file).run policy steps).Durable := by
  rcases process with ⟨migration, migrates, runs⟩
  have migrated : ((startup file).run policy migration).Durable :=
    (durable_startup file).run migration fun step member => not_isOpen (migrates step member)
  rcases runs with rfl | ⟨outcome, rest, once, rfl⟩
  · exact migrated
  · have started : ((startup file).run policy migration).Started :=
      (started_startup file).run migration migrates
    rw [AofSync.run, List.foldl_append, List.foldl_cons]
    exact (migrated.openFile started outcome).run rest once

/-- A sync of a file that has been replaced since tells nothing about the new one. -/
theorem publish_replaced (durable : aof.Durable) {noted : Capture} {ok : Bool}
    (returned : aof.worker = .returned noted ok) (replaced : noted.fileId ≠ aof.fileId) :
    aof.publish.synced = aof.synced := by
  have kept := durable.worker
  rw [returned] at kept
  unfold AofSync.publish
  rw [returned]
  dsimp only
  apply if_neg
  rintro ⟨_, same, _⟩
  exact replaced (kept.1.current same).1

/-- What counts as synced is in the file and was covered by an `fdatasync` of this file,
for every order of calls on the manager and steps of the thread. -/
theorem synced_durable (policy : SyncPolicy) (file : Option Bytes) (steps : List SyncStep)
    (process : ProcessSteps steps) :
    let aof := (startup file).run policy steps
    aof.synced ≤ aof.manager.size ∧ aof.manager.size ≤ aof.manager.content.length ∧
      aof.synced ≤ aof.covered aof.fileId ∧
      aof.covered aof.fileId ≤ aof.manager.content.length ∧
      ∀ noted ok, aof.worker = .returned noted ok → noted.fileId ≠ aof.fileId →
        aof.publish.synced = aof.synced := by
  intro aof
  have durable : aof.Durable := durable_process policy file process
  exact ⟨durable.synced, durable.size, durable.covered, durable.within,
    fun noted ok returned replaced => publish_replaced durable returned replaced⟩

/-- A rewrite is committed while a sync of the old file is under way. -/
def replacedDuringSync : List SyncStep :=
  [.call (.openFile {}),
    .call (.append { room := ascii "r", args := [ascii "DEL", ascii "k"] } { written := 100 }),
    .capture true,
    .call (.startRewrite true 100),
    .call (.commitRewrite {}),
    .syncReturns true]

theorem synced_durable_sample :
    ProcessSteps replacedDuringSync ∧
      ((startup none).run .everysec replacedDuringSync).publish.synced =
        ((startup none).run .everysec replacedDuringSync).synced := by
  have process : ProcessSteps replacedDuringSync := by
    refine ⟨[], by simp, .inr ⟨{}, replacedDuringSync.tail, ?_, rfl⟩⟩
    intro step member opens
    simp only [replacedDuringSync, List.tail_cons, List.mem_cons, List.not_mem_nil,
      or_false] at member
    rcases member with rfl | rfl | rfl | rfl | rfl <;> exact opens
  refine ⟨process, (synced_durable .everysec none replacedDuringSync process).2.2.2.2
    { generation := 1, offset := 96, dup := true, fileId := 0, present := 96 } true ?_ ?_⟩
  · decide +kernel
  · decide +kernel

end AofSync

end SomniumDB
