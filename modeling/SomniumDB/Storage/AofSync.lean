import SomniumDB.Storage.AofManager

/-! # Durability of the append-only file (`aof_manager.cpp`)

What the manager knows about how much of the file is on disk, and the thread that syncs
the file every second. The manager's functions run under its mutex. The thread takes it
only to note what it is about to sync and to publish the outcome: in between the file may
be appended to, closed, opened again or replaced. -/

namespace SomniumDB

open Bytes AofRecord

/-- `SOMNIUM_AOF_SYNC`. -/
inductive SyncPolicy
  | always
  | everysec
  | no
  deriving DecidableEq, Repr

/-- What the thread notes before it releases the mutex. -/
structure Capture where
  generation : Nat
  offset : Nat
  /-- `fcntl` gave it a descriptor of its own. -/
  dup : Bool
  /-- The file that the descriptor is open on, and the bytes in it. -/
  fileId : Nat
  present : Nat
  deriving DecidableEq, Repr

inductive Worker
  | idle
  | syncing (capture : Capture)
  /-- `fdatasync` has returned. -/
  | returned (capture : Capture) (ok : Bool)
  deriving DecidableEq, Repr

/-- The files `appendonly.aof` has named are numbered. `covered` gives, for each, the
number of leading bytes that were in it when an `fdatasync` of it began that succeeded;
what the process finds when it starts counts as covered. -/
structure AofSync where
  manager : AofManager
  generation : Nat := 0
  synced : Nat := 0
  worker : Worker := .idle
  fileId : Nat := 0
  covered : Nat → Nat

namespace AofSync

/-- The file at the start of the process, if there is one. -/
def startup (file : Option Bytes) : AofSync where
  manager := { file }
  covered := fun id => if id = 0 then (file.getD []).length else 0

/-- An `fdatasync` of a file that held `present` bytes when it began. -/
def cover (aof : AofSync) (id present : Nat) : AofSync :=
  { aof with
    covered := fun other =>
      if other = id then max (aof.covered id) present else aof.covered other }

/-- `sync_locked`, on the open file. -/
def syncLocked (aof : AofSync) (ok : Bool) : AofSync :=
  if ok then
    { aof.cover aof.fileId aof.manager.content.length with synced := aof.manager.size }
  else aof

/-- `open_file`: what is in the file already is the base. -/
def openFile (aof : AofSync) (outcome : OpenOutcome) : AofSync :=
  if aof.manager.fd || !outcome.opened then aof
  else
    let opened :=
      { aof with
        manager := (aof.manager.openFile outcome).1
        generation := aof.generation + 1 }
    if outcome.sized ∧ aof.manager.content = [] then
      if outcome.written < aofHeader.length then opened else opened.syncLocked outcome.synced
    else { opened with synced := opened.manager.size }

/-- `append`: a file that has to be opened again is not known to be durable. -/
def append (aof : AofSync) (policy : SyncPolicy) (record : AofRecord)
    (outcome : AppendOutcome) : AofSync :=
  if aof.manager.torn || !aof.manager.fd && !outcome.opened then aof
  else
    let ready :=
      if aof.manager.fd then aof
      else { aof with generation := aof.generation + 1, synced := 0 }
    let appended := { ready with manager := (aof.manager.append record outcome).1 }
    if outcome.written < record.encodeRecord.length then
      { appended with generation := ready.generation + 1 }
    else if policy = .always then appended.syncLocked outcome.synced
    else appended

/-- `commit_rewrite`: the temporary file has been synced before it takes the name. -/
def commitRewrite (aof : AofSync) (outcome : CommitOutcome) : AofSync :=
  let manager := (aof.manager.commitRewrite outcome).1
  if !aof.manager.rewriteFd || !outcome.synced || !outcome.closed || !outcome.renamed then
    { aof with manager }
  else
    let replaced := { aof with manager, fileId := aof.fileId + 1 }
    { replaced.cover replaced.fileId manager.content.length with
      generation := aof.generation + 1
      synced := if outcome.reopened then manager.size else 0 }

def call (aof : AofSync) (policy : SyncPolicy) : AofCall → AofSync
  | .openFile outcome => aof.openFile outcome
  | .append record outcome => aof.append policy record outcome
  | .commitRewrite outcome => aof.commitRewrite outcome
  | other => { aof with manager := aof.manager.step other }

/-- `sync_worker`, up to the release of the mutex: there is something to sync. -/
def capture (aof : AofSync) (dup : Bool) : AofSync :=
  match aof.worker with
  | .idle =>
      if aof.manager.fd ∧ aof.synced < aof.manager.size then
        { aof with
          worker := .syncing
            { generation := aof.generation, offset := aof.manager.size, dup
              fileId := aof.fileId, present := aof.manager.content.length } }
      else aof
  | _ => aof

/-- `fdatasync` returns. It began after the capture, so it covers at least what was in
the file then. -/
def syncReturns (aof : AofSync) (ok : Bool) : AofSync :=
  match aof.worker with
  | .syncing noted =>
      if noted.dup && ok then
        { aof.cover noted.fileId noted.present with worker := .returned noted true }
      else { aof with worker := .returned noted false }
  | _ => aof

/-- `sync_worker`, once it has the mutex again. -/
def publish (aof : AofSync) : AofSync :=
  match aof.worker with
  | .returned noted ok =>
      { aof with
        worker := .idle
        synced :=
          if noted.dup ∧ noted.generation = aof.generation ∧ ok ∧ aof.synced < noted.offset then
            noted.offset
          else aof.synced }
  | _ => aof

end AofSync

/-- What happens to the file: a call on the manager or a step of the thread. -/
inductive SyncStep
  | call (call : AofCall)
  | capture (dup : Bool)
  | syncReturns (ok : Bool)
  | publish

namespace AofSync

def step (policy : SyncPolicy) (aof : AofSync) : SyncStep → AofSync
  | .call call => aof.call policy call
  | .capture dup => aof.capture dup
  | .syncReturns ok => aof.syncReturns ok
  | .publish => aof.publish

def run (policy : SyncPolicy) (aof : AofSync) (steps : List SyncStep) : AofSync :=
  steps.foldl (step policy) aof

end AofSync

/-- `open_file` is called once. -/
def SyncStep.IsOpen : SyncStep → Prop
  | .call (.openFile _) => True
  | _ => False

/-- Before that, the log that was found may be migrated by a rewrite; nothing is
appended. -/
def SyncStep.Migrates : SyncStep → Prop
  | .call (.openFile _) => False
  | .call (.append _ _) => False
  | _ => True

/-- The steps of one process, from the constructor of `Database` on. -/
def ProcessSteps (steps : List SyncStep) : Prop :=
  ∃ migration, (∀ step ∈ migration, step.Migrates) ∧
    (steps = migration ∨
      ∃ outcome rest, (∀ step ∈ rest, ¬step.IsOpen) ∧
        steps = migration ++ .call (.openFile outcome) :: rest)

end SomniumDB
