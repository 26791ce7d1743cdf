import SomniumDB.Abstract.Fitting
import SomniumDB.Properties.Frontiers

/-! # The versions of local writes

Within one life of a process the clock gives every local write a version above all that the
process has met, so that the write is stale nowhere. The clock does this as long as its
operands leave room in a word. -/

namespace SomniumDB

open Bytes

namespace Node

/-- What a record overwrites is not above what its version is drawn over. -/
theorem overwritten_le_replaces (node : Node) (now : Nat) {record : AofRecord} {change : Change}
    (member : change ∈ record.changes) :
    (node.touch now change.place).overwritten change.place ≤ node.replaces now record := by
  unfold replaces
  generalize record.changes = changes at member ⊢
  induction changes with
  | nil => exact absurd member List.not_mem_nil
  | cons first rest induction =>
      rw [List.map_cons, List.foldr_cons]
      rcases List.mem_cons.mp member with rfl | behind
      · exact le_max_left _ _
      · exact (induction behind).trans (le_max_right _ _)

theorem clock_offer (config : Config) (now : Nat) (node : Node) (record : AofRecord)
    (change : Change) : change.version.ts ≤ (node.offer config now record change).clock := by
  have observed : change.version.ts ≤
      ((node.observe change.version.ts).touch now change.place).clock := le_max_right _ _
  unfold offer
  dsimp only
  by_cases stale :
      (touch now (node.observe change.version.ts) change.place).stale change.place change.version =
      true
  · rw [if_pos stale]
    exact observed
  · rw [if_neg stale]
    exact observed.trans (le_max_left _ _)

end Node

namespace Db

variable {config : Config} {db : Db}

/-- The version of a record or tombstone that stands where a record is going to write. -/
inductive Overwrites (db : Db) (now : Nat) (record : AofRecord) : Version → Prop
  | record {change : Change} {held : Record} (member : change ∈ record.changes)
      (stored : db.held change.place = some held) (current : held.expired now = false) :
      Overwrites db now record held.version
  | tomb {change : Change} {version : Version} (member : change ∈ record.changes)
      (absent : ∀ held, db.held change.place = some held → held.expired now = true)
      (marked : db.findTomb change.place.1 change.place.2 = some version) :
      Overwrites db now record version

theorem Overwrites.le_replaces {now : Nat} {record : AofRecord} {version : Version}
    (overwrites : db.Overwrites now record version) :
    version.ts ≤ db.node.replaces now record := by
  cases overwrites with
  | record member stored current =>
      refine le_of_eq_of_le ?_ (db.node.overwritten_le_replaces now member)
      rw [Node.overwritten, Node.touch, Node.hold_held, if_pos rfl]
      change _ = (((db.held _).filter _).map Record.timestampMs).getD _
      rw [stored, Option.filter_some, current]
      rfl
  | tomb member absent marked =>
      refine le_of_eq_of_le ?_ (db.node.overwritten_le_replaces now member)
      rename_i change
      have gone : (db.held change.place).filter (fun held => !held.expired now) = none := by
        rw [Option.filter_eq_none_iff]
        intro held stored
        rw [absent held stored]
        decide
      rw [Node.overwritten, Node.touch, Node.hold_held, if_pos rfl]
      change _ = (((db.held change.place).filter _).map Record.timestampMs).getD
        (((db.findTomb change.place.1 change.place.2).map Version.ts).getD 0)
      rw [gone, marked]
      rfl

/-! ## The clock along a life -/

theorem clock_step (sane : Sane config db) {event : Event} (alive : ∀ now, event ≠ .restart now) :
    db.clock ≤ (db.step event).clock := by
  rcases step_evolves sane event alive with ⟨held, log, _, steps, _⟩
  exact Node.steps_clock steps

theorem clock_run (sane : Sane config db) {events : List Event}
    (alive : ∀ event ∈ events, ∀ now, event ≠ .restart now) :
    db.clock ≤ (db.run events).clock := by
  induction events generalizing db with
  | nil => exact le_rfl
  | cons event rest induction =>
      exact (clock_step sane (alive event List.mem_cons_self)).trans
        (induction (sane.stepped event)
          fun other member => alive other (List.mem_cons_of_mem _ member))

/-- The clock has reached every version that has been logged. -/
theorem appended_le_clock (sane : Sane config db) {call : Call} {record : AofRecord}
    (member : record ∈ db.appended call) : record.timestampMs ≤ (db.execute call).1.clock := by
  rcases execute_steps sane call with ⟨log, steps, grown⟩
  rcases Node.steps_log steps with ⟨new, logged, bound⟩
  have same : log ++ db.appended call = log ++ new := grown.symm.trans logged
  rw [List.append_cancel_left same] at member
  exact bound record member

/-- The clock observes every version that is admitted, stale or not. -/
theorem admitted_le_clock (sane : Sane config db) {call : Call} {version : Version}
    (welcomes : db.Welcomes call version) : version.ts ≤ (db.execute call).1.clock := by
  rcases welcomes.brings with ⟨key, brings⟩
  rcases named_of_incoming brings with ⟨first, kind, head, named, command⟩
  rcases execute_inRoom sane head named welcomes.listening with
    ⟨closed, _, _⟩ | ⟨_, awake, entered, _, node⟩
  · exact absurd welcomes.opens closed
  · have outcome : Replicates call.now awake (db.clientRoom call.clientFd) call.args _ :=
      replicates_runInRoom entered.wellFormed entered.awake head named
        (command.imp And.left And.left) call.resp3
    have near : awake.Near call.now version := by
      unfold Near
      rw [entered.config]
      exact welcomes.near
    rcases outcome with ⟨_, far⟩ | ⟨other, same, record, change, again, _, offered, _, rfl⟩
    · exact absurd near (far key version brings)
    · cases again.symm.trans brings
      have carried : change.version = record.version :=
        AofRecord.version_of_mem_changes (offered.single ▸ List.mem_singleton_self change)
      have clock : (db.execute call).1.clock =
          (awake.node.offer awake.config call.now record change).clock :=
        congrArg Node.clock (node.trans offered.acts.node)
      rw [clock, ← carried]
      exact Node.clock_offer _ _ _ _ _

/-- The versions that a process has met: those that it has logged, its own and those that
peers sent, and those that it has admitted and found to be stale. -/
inductive Met (start : Db) (events : List Event) : Version → Prop
  | logged {before after : List Event} {call : Call} {record : AofRecord}
      (split : events = before ++ .command call :: after)
      (member : record ∈ (start.run before).appended call) : Met start events record.version
  | admitted {before after : List Event} {call : Call} {version : Version}
      (split : events = before ++ .command call :: after)
      (welcomes : (start.run before).Welcomes call version) : Met start events version

theorem Met.le_clock {start : Db} {events : List Event} {version : Version}
    (sane : Sane config start) (alive : ∀ event ∈ events, ∀ now, event ≠ .restart now)
    (met : Met start events version) : version.ts ≤ (start.run events).clock := by
  have later : ∀ before after call, events = before ++ .command call :: after →
      ((start.run before).execute call).1.clock ≤ (start.run events).clock := by
    rintro before after call rfl
    rw [run_append, run_cons]
    apply clock_run ((sane.ran before).stepped (.command call))
    intro event member
    exact alive event (List.mem_append_right _ (List.mem_cons_of_mem _ member))
  cases met with
  | logged split member =>
      exact (appended_le_clock (sane.ran _) member).trans (later _ _ _ split)
  | admitted split welcomes =>
      exact (admitted_le_clock (sane.ran _) welcomes).trans (later _ _ _ split)

/-! ## What a local write surpasses -/

/-- All versions that a process knows of when a command, which has logged some records
already, writes one more. -/
def Known (start : Db) (events : List Event) (call : Call) (earlier : List AofRecord)
    (record : AofRecord) (version : Version) : Prop :=
  Met start events version ∨ (∃ other ∈ earlier, other.version = version) ∨
    (start.run events).Overwrites call.now record version

/-- What the version of a local write has to be. -/
structure Surpasses (start : Db) (events : List Event) (call : Call) (earlier : List AofRecord)
    (record : AofRecord) (ts : Nat) : Prop where
  /-- The version has not wrapped around. -/
  exact : ts = record.timestampMs
  newest : ∀ version, Known start events call earlier record version → version.ts < ts
  announced : (start.run events).frontier < ts
  /-- The write is not stale on a node whose record or tombstone has a known version, nor on
  a node without either whose watermark is below it. -/
  wins : ∀ change ∈ record.changes, ∀ (peer : Db) (found : Option Record),
    (∀ held, found = some held → Known start events call earlier record held.version) →
    (found = none → ∀ version, peer.findTomb change.place.1 change.place.2 = some version →
      Known start events call earlier record version) →
    (found = none → peer.findTomb change.place.1 change.place.2 = none → peer.watermark < ts) →
    peer.stale change.place.1 change.place.2 found ⟨ts, record.nodeId⟩ = false

theorem not_stale_of_newer {peer : Db} {place : Place} {found : Option Record}
    {version : Version} (record : ∀ held, found = some held → held.timestampMs < version.ts)
    (tomb : found = none → ∀ other, peer.findTomb place.1 place.2 = some other →
      other.ts < version.ts)
    (neither : found = none → peer.findTomb place.1 place.2 = none →
      peer.watermark < version.ts) : peer.stale place.1 place.2 found version = false := by
  unfold stale
  cases found with
  | some held => exact decide_eq_false (not_le.mpr (Version.lt_of_ts_lt (record held rfl)))
  | none =>
      dsimp only
      cases marked : peer.findTomb place.1 place.2 with
      | some other => exact decide_eq_false (not_le.mpr (Version.lt_of_ts_lt (tomb rfl other marked)))
      | none => exact decide_eq_false (not_le.mpr (neither rfl marked))

/-- In one life of a process, whatever came before it and whatever the clock readings: the
version of a local write has not wrapped around and surpasses all that the process knows of,
so that the write wins wherever that is all that is known, exactly if the operands of its
clock fit in a word. As long as this has been so at every earlier step, the state is that of
the process. -/
theorem local_version_surpasses_iff {config : Config} {start : Db}
    (reachable : Reachable config start) {life : List Event}
    (alive : ∀ event ∈ life, ∀ now, event ≠ .restart now) {call : Call} (domestic : Domestic call)
    {earlier later : List AofRecord} {record : AofRecord}
    (appends : (start.run life).appended call = earlier ++ record :: later) :
    Surpasses start life call earlier record
        ((start.run life).wordVersion call earlier record) ↔
      Hlc.Fits (Node.clockAfter (start.run life).clock earlier) call.now
        ((start.run life).node.replaces call.now record) := by
  have sane := sane_of_reachable reachable
  have drawn := drawn_appended (sane.ran life) domestic
  rw [appends] at drawn
  rcases drawn.version with ⟨-, version, above, each⟩
  unfold wordVersion
  rw [← Hlc.nextWord_eq_next_iff, ← version]
  constructor
  · exact Surpasses.exact
  · intro exact
    have clock : Node.clockAfter (start.run life).clock earlier < record.timestampMs := by
      rw [version]
      exact Hlc.last_lt_next _ _ _
    have replaced : (start.run life).node.replaces call.now record < record.timestampMs := by
      conv => rhs; rw [version]
      exact Hlc.overwritten_lt_next _ _ _
    have newest : ∀ known, Known start life call earlier record known →
        known.ts < record.timestampMs := by
      rintro known (met | ⟨other, member, rfl⟩ | overwrites)
      · exact (met.le_clock sane alive).trans_lt (above.trans_lt clock)
      · exact (each other member).trans_lt clock
      · exact overwrites.le_replaces.trans_lt replaced
    rw [exact]
    refine ⟨rfl, newest, ?_, ?_⟩
    · rcases reachable with ⟨begun, history, rfl⟩
      rw [← run_append]
      have bound := drawn_run (sane_fresh config begun) (frontier_recover config [] ∅ begun).le
        (history ++ life)
      rw [run_append] at bound ⊢
      exact bound.trans_lt (above.trans_lt clock)
    · intro change member peer found known marked bare
      refine not_stale_of_newer (fun held here => newest _ (known held here)) ?_ bare
      exact fun absent other here => newest _ (marked absent other here)

/-- A peer whose clock is ahead sends a key; another key is written and deleted. -/
def mixedLife : List Event :=
  [clientCall 1750000001000
      [ascii "CRDTMERGE", ascii "k", ascii "v", decimal (1750000005000 * 2 ^ 16), ascii "2"],
    clientCall 1750000002000 [ascii "SET", ascii "j", ascii "a"],
    clientCall 1750000003000 [ascii "DEL", ascii "j"]]

/-- Both keys are written: the one replaces what was merged, the other a tombstone. -/
def mixedSet : Call :=
  { clientFd := 5
    args := [ascii "MSET", ascii "k", ascii "x", ascii "j", ascii "y"]
    now := 1750000004000 }

def mixedRecord : AofRecord :=
  { room := defaultRoom
    args := [ascii "MSET", ascii "k", ascii "x", ascii "j", ascii "y"]
    timestampMs := 1750000005000 * 2 ^ 16 + 3 }

theorem local_version_surpasses_mixed :
    Surpasses (fresh { peerCount := 1 } 1750000000000) mixedLife mixedSet [] mixedRecord
      (((fresh { peerCount := 1 } 1750000000000).run mixedLife).wordVersion mixedSet []
        mixedRecord) := by
  have reachable : Reachable { peerCount := 1 } (fresh { peerCount := 1 } 1750000000000) :=
    ⟨1750000000000, [], rfl⟩
  have domestic : Domestic mixedSet := by
    intro first head
    cases head
    decide
  have appends : ((fresh { peerCount := 1 } 1750000000000).run mixedLife).appended mixedSet =
      [] ++ mixedRecord :: [] := by
    decide +kernel
  have alive : ∀ event ∈ mixedLife, ∀ now, event ≠ .restart now := by
    intro event member now equal
    subst event
    simp [mixedLife, clientCall] at member
  exact (local_version_surpasses_iff reachable alive domestic appends).mpr (by decide +kernel)

/-- A node whose guard lets any version pass. -/
def wide : Config := { maxClockOffsetMs := 300000000000000 }

/-- A peer sends the greatest version. -/
def greatestMerge : Event :=
  clientCall 1750000001000
    [ascii "CRDTMERGE", ascii "k", ascii "v", ascii "18446744073709551615", ascii "7"]

/-- The client writes the key. -/
def laterSet : Call :=
  { clientFd := 5, args := [ascii "SET", ascii "k", ascii "w"], now := 1750000002000 }

/-- What the write logs when its version is counted on. -/
def laterRecord : AofRecord :=
  { room := defaultRoom, args := [ascii "SET", ascii "k", ascii "w"], timestampMs := 2 ^ 64 }

/-- The version of the write wraps around and is below the one that it replaces. -/
theorem local_version_wraps :
    ((fresh wide 1750000000000).run [greatestMerge]).appended laterSet = [laterRecord] ∧
      ((fresh wide 1750000000000).run [greatestMerge]).Overwrites laterSet.now laterRecord
        ⟨18446744073709551615, 7⟩ ∧
      ((fresh wide 1750000000000).run [greatestMerge]).wordVersion laterSet [] laterRecord =
        1750000002000 * 2 ^ 16 ∧
      ¬Surpasses (fresh wide 1750000000000) [greatestMerge] laterSet [] laterRecord
        (((fresh wide 1750000000000).run [greatestMerge]).wordVersion laterSet [] laterRecord) := by
  have version : ((fresh wide 1750000000000).run [greatestMerge]).wordVersion laterSet []
      laterRecord = 1750000002000 * 2 ^ 16 := by decide +kernel
  have stored : ((fresh wide 1750000000000).run [greatestMerge]).held (defaultRoom, ascii "k") =
      some { value := ascii "v", timestampMs := 18446744073709551615, nodeId := 7 } := by
    decide +kernel
  have overwrites : ((fresh wide 1750000000000).run [greatestMerge]).Overwrites laterSet.now
      laterRecord ⟨18446744073709551615, 7⟩ := by
    have changes : laterRecord.changes = [laterRecord.put (ascii "k") (ascii "w")] :=
      changes_set rfl (by decide)
    have member : laterRecord.put (ascii "k") (ascii "w") ∈ laterRecord.changes := by
      rw [changes]
      exact List.mem_singleton_self _
    exact .record member stored rfl
  refine ⟨by decide +kernel, overwrites, version, fun surpasses => ?_⟩
  have above := surpasses.newest _ (.inr (.inr overwrites))
  rw [version] at above
  exact absurd above (by decide)

end Db

end SomniumDB
