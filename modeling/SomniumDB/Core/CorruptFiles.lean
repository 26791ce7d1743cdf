import SomniumDB.Core.RoomFiles
import SomniumDB.Core.Runs

/-! # Rewriting the log beside corrupt snapshot files

A damaged snapshot may still decode, and then it is loaded like any other. One that does
not decode wakes its room empty, as a missing one does, but `dump_state` sees that it is
there and gives up; on the way `wakeup_room` renames the file aside. The files that decode
are those of `Db.snapshots`. -/

namespace SomniumDB

open Bytes SnapshotManager

/-- The snapshot files that the loader refuses, by room name. -/
structure CorruptFiles where
  files : FiniteMap Bytes Bytes
  invalid : ∀ name data, files.lookup name = some data → decode data = none

namespace CorruptFiles

def refused (files : FiniteMap Bytes Bytes) : CorruptFiles where
  files := files.filter fun _ data => (decode data).isNone
  invalid name data found := by
    rw [FiniteMap.lookup_filter, Option.filter_eq_some_iff] at found
    exact Option.isNone_iff_eq_none.mp found.2

/-- Some of the files are renamed aside, replaced or removed. -/
def keep (corrupt : CorruptFiles) (kept : Bytes → Bool) : CorruptFiles where
  files := corrupt.files.filter fun name _ => kept name
  invalid name data found := by
    rw [FiniteMap.lookup_filter] at found
    exact corrupt.invalid name data (Option.filter_eq_some_iff.mp found).1

def Holds (corrupt : CorruptFiles) (name : Bytes) : Prop :=
  name ∈ corrupt.files

instance (corrupt : CorruptFiles) (name : Bytes) : Decidable (corrupt.Holds name) :=
  inferInstanceAs (Decidable (name ∈ corrupt.files))

end CorruptFiles

structure Disk where
  db : Db
  corrupt : CorruptFiles

structure CorruptCalls where
  /-- `stat` in `has_snapshot` succeeds. -/
  seen : Bytes → Bool := fun _ => true
  /-- `wakeup_room` comes as far as renaming the file, and `rename` succeeds. -/
  renamed : Bytes → Bool := fun _ => true
  /-- The rooms whose file a command sets aside, because it wakes the room, or
  removes, because it forks while the room is awake. -/
  aside : List Bytes := []

inductive DiskEvent
  | node (event : Event) (calls : CorruptCalls)
  /-- `rewrite_aof`, which fails for want of space or succeeds. -/
  | rewriteAof (now : Nat) (calls : CorruptCalls) (completes : Bool)

/-- The sleeping room whose snapshot the child examines next. -/
def RewriteChild.next (child : RewriteChild) : Option Bytes :=
  if child.finished || child.now.isNone then none
  else
    match child.todo with
    | [] => none
    | (name, room) :: _ => if room.state = .sleeping then some name else none

namespace Disk

def overwrite (snapshots : FiniteMap Bytes (FiniteMap Bytes Record)) (file : Bytes × Bytes) :
    FiniteMap Bytes (FiniteMap Bytes Record) :=
  match decode file.2 with
  | none => snapshots.erase file.1
  | some records => snapshots.insert file.1 records

/-- The files of some rooms get any content at all. -/
def damage (db : Db) (files : FiniteMap Bytes Bytes) : Disk where
  db := { db with snapshots := files.toPairs.foldl overwrite db.snapshots }
  corrupt := .refused files

/-- A dump that finds a corrupt file where a snapshot should be ends there. -/
def stopsAt (disk : Disk) (calls : CorruptCalls) (name : Bytes) : Bool :=
  decide (disk.corrupt.Holds name) && calls.seen name

def childStep (disk : Disk) (now : Nat) (calls : CorruptCalls) : Disk :=
  match disk.db.rewriteChild.bind RewriteChild.next with
  | none => { disk with db := disk.db.childStep now }
  | some name =>
      if disk.stopsAt calls name then
        { db := disk.db.childFail
          corrupt := disk.corrupt.keep fun other => other ≠ name || !calls.renamed name }
      else { disk with db := disk.db.childStep now }

/-- The first sleeping room whose corrupt file makes `dump_state` give up. -/
def obstacle (disk : Disk) (calls : CorruptCalls) : Option Bytes :=
  (disk.db.rooms.toPairs.find? fun entry =>
    decide (entry.2.state = .sleeping) && disk.stopsAt calls entry.1).map Prod.fst

def discardActiveSnapshots (disk : Disk) : Disk where
  db := disk.db.discardActiveSnapshots
  corrupt := disk.corrupt.keep fun name => (disk.db.room name).state = .sleeping

/-- The log that `rewrite_aof` writes, when it comes to its end. -/
def dumped (disk : Disk) (now : Nat) (calls : CorruptCalls) (completes : Bool) :
    Option (List AofRecord) :=
  if (disk.obstacle calls).isNone && completes then some (disk.db.dumpState now) else none

def rewriteAof (disk : Disk) (now : Nat) (calls : CorruptCalls) (completes : Bool) : Disk :=
  let ready := disk.discardActiveSnapshots
  { db := { ready.db with aof := (ready.dumped now calls completes).getD ready.db.aof }
    corrupt :=
      match ready.obstacle calls with
      | some name => ready.corrupt.keep fun other => other ≠ name || !calls.renamed name
      | none => ready.corrupt }

def step (disk : Disk) : DiskEvent → Disk
  | .node (.childStep now) calls => disk.childStep now calls
  | .node event calls =>
      { db := disk.db.step event
        corrupt := disk.corrupt.keep fun name =>
          name ∉ calls.aside && (((disk.db.step event).snapshots.lookup name).isNone) }
  | .rewriteAof now calls completes => disk.rewriteAof now calls completes

def run (disk : Disk) (events : List DiskEvent) : Disk :=
  events.foldl step disk

/-- The log that an event puts in the place of the old one. -/
def installed (disk : Disk) : DiskEvent → Option (List AofRecord)
  | .node (.command call) _ =>
      match call.args, disk.db.rewriteChild with
      | _ :: _, some child =>
          if child.finished && !child.failed then
            some (child.written ++ disk.db.aof.drop disk.db.rewriteFrom)
          else none
      | _, _ => none
  | .node _ _ => none
  | .rewriteAof now calls completes =>
      disk.discardActiveSnapshots.dumped now calls completes

/-- A node started from the log `log` and the snapshots of this one has a value
for the key. -/
def restores (disk : Disk) (log : List AofRecord) (now : Nat) (name key : Bytes) : Bool :=
  let started := Db.recover disk.db.config log disk.db.snapshots now
  let awake := ((started.findRoom name).activate now name true).1
  (awake.lookup now name key).2.isSome

end Disk

end SomniumDB
