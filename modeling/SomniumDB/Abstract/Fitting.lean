import SomniumDB.Abstract.Drawn
import SomniumDB.Core.HlcWords
import SomniumDB.Library.Runs

/-! # Draws that fit

The clock of the model counts on where that of the process wraps around. Along a run whose
draws all leave room in a word the two are the same. -/

namespace SomniumDB

open Bytes FsUtil

namespace Node

variable {config : Config} {now : Nat} {node : Node}

/-- Every version of the records is drawn with operands that fit. -/
def DrawsFit (node : Node) (now : Nat) : Nat → List AofRecord → Prop
  | _, [] => True
  | clock, record :: rest =>
      Hlc.Fits clock now (node.replaces now record) ∧
        DrawsFit node now record.timestampMs rest

def decideDrawsFit (node : Node) (now clock : Nat) :
    (records : List AofRecord) → Decidable (node.DrawsFit now clock records)
  | [] => isTrue trivial
  | record :: rest =>
      have := decideDrawsFit node now record.timestampMs rest
      inferInstanceAs (Decidable (_ ∧ _))

instance (clock : Nat) (records : List AofRecord) :
    Decidable (node.DrawsFit now clock records) :=
  decideDrawsFit node now clock records

theorem DrawsFit.drawn {clock : Nat} {earlier later : List AofRecord} {record : AofRecord}
    (fits : node.DrawsFit now clock (earlier ++ record :: later)) :
    Hlc.Fits (clockAfter clock earlier) now (node.replaces now record) := by
  induction earlier generalizing clock with
  | nil => exact fits.1
  | cons first rest induction =>
      rw [clockAfter_cons]
      exact induction fits.2

end Node

namespace Db

variable {config : Config} {db : Db} {call : Call}

/-- The version that the clock of the process gives to a record. -/
def wordVersion (db : Db) (call : Call) (earlier : List AofRecord) (record : AofRecord) : Nat :=
  Hlc.nextWord (Node.clockAfter db.clock earlier) call.now (db.node.replaces call.now record)

/-- The clock of a restarted process, before it draws its first frontier. -/
def clockReplayed (db : Db) (now : Nat) : Nat :=
  (db.aof.foldl (replayRecord now)
    { config := db.config, aof := db.aof, snapshots := db.snapshots }).clock

/-- The operands of every version that an event draws fit: of each record that is the
node's own, and of the frontier that follows `REPLFRONTIER` or a start. -/
def Fitting (db : Db) : Event → Prop
  | .command call =>
      (incoming call.args = none →
          db.node.DrawsFit call.now db.clock (db.appended call)) ∧
        (call.announces ≠ none → Hlc.Fits db.clock call.now 0)
  | .restart now => Hlc.Fits (db.clockReplayed now) now 0
  | _ => True

instance (event : Event) : Decidable (db.Fitting event) :=
  match event with
  | .command _ => inferInstanceAs (Decidable (_ ∧ _))
  | .restart _ => inferInstanceAs (Decidable (Hlc.Fits _ _ _))
  | .cleanup _ _ | .cleanExpired _ _ | .hibernateInactive _ _ | .childStep _ | .childFail _ =>
      isTrue trivial

/-- A run from the first start of the node on, all of whose draws fit. -/
structure FittingRun (config : Config) (start : Nat) (events : List Event) : Prop where
  begins : Hlc.Fits 0 start 0
  draws : Runs.Always step Fitting (fresh config start) events

theorem FittingRun.fitting {start : Nat} {events before rest : List Event} {event : Event}
    (fits : FittingRun config start events) (split : events = before ++ event :: rest) :
    ((fresh config start).run before).Fitting event := by
  apply fits.draws before event
  rw [split]
  exact ⟨rest, List.append_assoc before [event] rest⟩

theorem Domestic.brings_nothing (domestic : Domestic call) : incoming call.args = none := by
  cases brings : incoming call.args with
  | none => rfl
  | some pair =>
      rcases named_of_incoming brings with ⟨first, kind, head, _, merge | delete⟩
      · exact absurd merge.2 (domestic first head).1
      · exact absurd delete.2 (domestic first head).2

/-- A record whose draw fits is logged with the version that the process gives to it. -/
theorem wordVersion_of_fits (sane : Sane config db) (domestic : Domestic call)
    {earlier later : List AofRecord} {record : AofRecord}
    (appends : db.appended call = earlier ++ record :: later)
    (fits : db.Fitting (.command call)) :
    db.wordVersion call earlier record = record.timestampMs := by
  have drawn := drawn_appended sane domestic
  have drawsFit := fits.1 domestic.brings_nothing
  rw [appends] at drawn drawsFit
  rw [wordVersion, (Hlc.nextWord_eq_next_iff _ _ _).mpr drawsFit.drawn]
  exact drawn.version.2.1.symm

/-- The timestamp under which the process logs a record: a replicated command brings it,
every other one draws it. -/
def loggedTs (db : Db) (event : Event) (earlier : List AofRecord) (record : AofRecord) : Nat :=
  match event with
  | .command call =>
      if (incoming call.args).isSome then record.timestampMs
      else db.wordVersion call earlier record
  | _ => record.timestampMs

theorem loggedTs_of_imports {key : Bytes} {version : Version}
    (imports : db.Imports call key version) (earlier : List AofRecord) (record : AofRecord) :
    db.loggedTs (.command call) earlier record = record.timestampMs := by
  rw [loggedTs, imports.brings, Option.isSome_some, if_pos rfl]

theorem loggedTs_of_fits (sane : Sane config db) {event : Event} (fits : db.Fitting event)
    {earlier later : List AofRecord} {record : AofRecord}
    (appends : db.appendedBy event = earlier ++ record :: later) :
    db.loggedTs event earlier record = record.timestampMs := by
  cases event with
  | command call =>
      have member : record ∈ db.appended call := by
        change record ∈ db.appendedBy (.command call)
        rw [appends]
        exact List.mem_append_right _ List.mem_cons_self
      rcases appended_cases sane call member with issued | ⟨key, imports⟩
      · rw [loggedTs, issued.domestic.brings_nothing, Option.isSome_none, if_neg (by simp)]
        exact wordVersion_of_fits sane issued.domestic appends fits
      · exact loggedTs_of_imports imports earlier record
  | _ => rfl

end Db

end SomniumDB
