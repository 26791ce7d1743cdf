import SomniumDB.Core.Execute

/-! # Runs of a node

A node takes commands, the watchdog sweeps its rooms, the child of a background
rewrite makes progress on its own, and the process may be killed and started
again at any moment between these. -/

namespace SomniumDB

/-- What happens to a node, with the clock reading at which it happens. -/
inductive Event
  | command (call : Call)
  /-- `cleanup_client`: the connection is closed. -/
  | cleanup (now clientFd : Nat)
  /-- The watchdog, on one room. -/
  | cleanExpired (now : Nat) (name : Bytes)
  | hibernateInactive (now : Nat) (name : Bytes)
  | childStep (now : Nat)
  | childFail (now : Nat)
  /-- The process is killed and the node starts again. -/
  | restart (now : Nat)

def Event.now : Event → Nat
  | .command call => call.now
  | .cleanup now _ => now
  | .cleanExpired now _ => now
  | .hibernateInactive now _ => now
  | .childStep now => now
  | .childFail now => now
  | .restart now => now

def clientCall (now : Nat) (args : List Bytes) : Event :=
  .command { clientFd := 5, args, now }

namespace Db

def cleanupClient (db : Db) (clientFd : Nat) : Db :=
  { db with clientRooms := db.clientRooms.erase clientFd }

def restart (db : Db) (now : Nat) : Db :=
  recover db.config db.aof db.snapshots now

def step (db : Db) : Event → Db
  | .command call => (db.execute call).1
  | .cleanup _ clientFd => db.cleanupClient clientFd
  | .cleanExpired now name => db.cleanExpiredKeys now name
  | .hibernateInactive now name => db.hibernateInactive now name
  | .childStep now => db.childStep now
  | .childFail _ => db.childFail
  | .restart now => db.restart now

def run (db : Db) (events : List Event) : Db :=
  events.foldl step db

@[simp] theorem run_nil (db : Db) : db.run [] = db := rfl

@[simp] theorem run_cons (db : Db) (event : Event) (rest : List Event) :
    db.run (event :: rest) = (db.step event).run rest := rfl

theorem run_append (db : Db) (front back : List Event) :
    db.run (front ++ back) = (db.run front).run back :=
  List.foldl_append

end Db

/-- What happens to a node whose snapshots may fail to be written. -/
inductive Occurrence
  | event (event : Event)
  /-- A hibernation, asked for or by the watchdog, whose file operations fail. -/
  | snapshotFails (name : Bytes)

def Occurrence.InProcess : Occurrence → Prop
  | .event (.restart _) => False
  | _ => True

theorem Occurrence.inProcess_or_restart (occurrence : Occurrence) :
    occurrence.InProcess ∨ ∃ now, occurrence = .event (.restart now) := by
  rcases occurrence with event | name
  · cases event with
    | restart now => exact .inr ⟨now, rfl⟩
    | _ => exact .inl trivial
  · exact .inl trivial

namespace Db

def occur (db : Db) : Occurrence → Db
  | .event event => db.step event
  | .snapshotFails name => db.hibernateFailed name

def occurAll (db : Db) (occurrences : List Occurrence) : Db :=
  occurrences.foldl occur db

end Db

def Chronological : Nat → List Event → Prop
  | _, [] => True
  | start, event :: rest => start ≤ event.now ∧ Chronological event.now rest

def endOfRun (start : Nat) (events : List Event) : Nat :=
  (events.getLast?.map Event.now).getD start

theorem endOfRun_cons (start : Nat) (event : Event) (rest : List Event) :
    endOfRun start (event :: rest) = endOfRun event.now rest := by
  unfold endOfRun
  cases rest with
  | nil => rfl
  | cons next more =>
      rw [List.getLast?_cons_cons, List.getLast?_eq_some_getLast (List.cons_ne_nil next more)]
      rfl

/-- The states a node can be in after it started in an empty directory. -/
def Reachable (config : Config) (db : Db) : Prop :=
  ∃ start events, db = (Db.fresh config start).run events

end SomniumDB
