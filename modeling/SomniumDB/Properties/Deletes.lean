import SomniumDB.Abstract.Fitting
import SomniumDB.Abstract.Guard

/-! # A deleted key stays deleted

On a node with peers a delete leaves a tombstone; once every peer has announced
a later version the tombstone gives way to the watermark. The watermark is
forgotten by a restart, and an expired record is removed without a tombstone,
so that older versions of the key can come back. -/

namespace SomniumDB

open Bytes LastUpdate Node

namespace Db

variable {config : Config} {db : Db} {deleted : Place → Version → Prop}

/-- The event makes the node delete the key with this version. -/
def Deletes (db : Db) (event : Event) (place : Place) (version : Version) : Prop :=
  DeletedBy (db.appendedBy event) place version

/-- What has been deleted after one more event. -/
def deletedBy (db : Db) (deleted : Place → Version → Prop) (event : Event) :
    Place → Version → Prop :=
  fun place version => deleted place version ∨ db.Deletes event place version

/-- What the log has last for the place is no older than `version`. -/
def Remembers (db : Db) (place : Place) (version : Version) : Prop :=
  match last Change.place (logReplayed db.aof) place with
  | some (.put _ record) => version < record.version
  | some (.del _ delete) => version ≤ delete
  | none => False

/-- What a step needs for the places deleted so far. -/
structure Careful (db : Db) (deleted : Place → Version → Prop) (event : Event) : Prop where
  /-- Where an expired record is all that the key has, a tombstone or the
  watermark protects it. -/
  expired : ∀ place version, deleted place version → ∀ record, db.held place = some record →
    record.expired event.now = true → db.node.Protected place version
  /-- A write that has already expired is made only where the watermark protects. -/
  timely : ∀ record ∈ db.appendedBy event,
    Node.Timely event.now db.watermark (db.deletedBy deleted event) record
  /-- The child of a rewrite discards the snapshot of a sleeping room only where
  a tombstone or the watermark protects. -/
  snapshot : ∀ now, event = .childStep now → ∀ place version, deleted place version →
    db.Misreads place.1 → (db.room place.1).state = .sleeping →
      db.node.Protected place version
  /-- A restart finds the delete, or something newer, in the log. -/
  restart : ∀ now, event = .restart now → ∀ place version, deleted place version →
    db.Remembers place version
  /-- The clock does not wrap around, so that its versions are those of the process. -/
  fits : db.Fitting event

/-- A run whose steps are all careful about what has been deleted before. -/
def CarefulRun : Db → (Place → Version → Prop) → List Event → Prop
  | _, _, [] => True
  | db, deleted, event :: rest =>
      db.Careful deleted event ∧ CarefulRun (db.step event) (db.deletedBy deleted event) rest

end Db

open Db

end SomniumDB
