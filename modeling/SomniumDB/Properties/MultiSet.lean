import SomniumDB.Abstract.Executed
import SomniumDB.Abstract.Logged
import SomniumDB.Abstract.Offer
import SomniumDB.Abstract.Shipping

/-! # Replicating an `MSET`

An `MSET` is logged as one record and replicated as one merge for each pair, all
under one version. The handler keeps the last value of a key that is repeated;
a peer keeps the first, since the merges after it are stale. -/

namespace SomniumDB

open Bytes FsUtil LastUpdate Replicator

/-- The value of the first pair of a key. -/
def firstValue (pairs : List (Bytes × Bytes)) (key : Bytes) : Option Bytes :=
  (pairs.find? fun pair => pair.1 = key).map Prod.snd

/-- The record that an `MSET` writes under one of its keys. -/
def msetValue (version : Version) (value : Bytes) : Record :=
  { value, timestampMs := version.ts, nodeId := version.node }

/-- The write of one pair. -/
def msetChange (name : Bytes) (version : Version) (pair : Bytes × Bytes) : Change :=
  .put (name, pair.1) (msetValue version pair.2)

/-- The version of an `MSET` survives the trip. -/
structure Version.Portable (version : Version) : Prop where
  hybrid : Hlc.kLegacyLimit ≤ version.ts
  timestamp : version.ts ≤ uint64Max
  node : version.node ≤ uint32Max

theorem Version.Portable.change {version : Version} (portable : version.Portable) (name : Bytes)
    (pair : Bytes × Bytes) : (msetChange name version pair).Portable := by
  refine ⟨portable.hybrid, portable.timestamp, portable.node, ?_⟩
  rintro place record equal
  cases equal
  exact Db.persistent_fits

namespace Db

variable {config : Config} {db : Db} {name : Bytes} {version : Version}

/-- The calls by which a peer is sent the pairs of an `MSET`, all accepted. -/
inductive Accepts (name : Bytes) (version : Version) : Db → List (Bytes × Bytes) →
    List Call → Db → Prop
  | done {db : Db} : Accepts name version db [] [] db
  | next {db final : Db} {pair : Bytes × Bytes} {rest : List (Bytes × Bytes)} {call : Call}
      {calls : List Call} (args : call.args = (msetChange name version pair).command)
      (selected : db.clientRoom call.clientFd = name) (listening : call.subscribed = false)
      (accepted : (db.execute call).2.head? = some 43)
      (more : Accepts name version (db.execute call).1 rest calls final) :
      Accepts name version db (pair :: rest) (call :: calls) final

/-- What one accepted merge does. -/
theorem offered_pair (sane : Sane config db) (portable : version.Portable)
    {pair : Bytes × Bytes} {call : Call}
    (args : call.args = (msetChange name version pair).command)
    (selected : db.clientRoom call.clientFd = name) (listening : call.subscribed = false)
    (accepted : (db.execute call).2.head? = some 43) :
    ∃ (log : List AofRecord) (record : AofRecord),
      record.changes = [msetChange name version pair] ∧
      (db.execute call).1.node = { db.node with log }.offer db.config call.now record
        (msetChange name version pair) := by
  rcases execute_command sane (portable.change name pair) args selected listening accepted with
    ⟨record, _, single, node⟩
  rcases node_beginCommand sane call with ⟨log, begun⟩
  rw [begun] at node
  exact ⟨log, record, single, node⟩

/-- A key that has the version keeps its value. -/
theorem Accepts.settled {pairs : List (Bytes × Bytes)} {calls : List Call} {final : Db}
    (accepts : Accepts name version db pairs calls final) (sane : Sane config db)
    (portable : version.Portable) {key value : Bytes}
    (held : db.held (name, key) = some (msetValue version value)) :
    final.held (name, key) = some (msetValue version value) := by
  induction accepts with
  | done => exact held
  | @next db final pair rest call calls args selected listening accepted more induction =>
      rcases offered_pair sane portable args selected listening accepted with
        ⟨log, record, single, node⟩
      apply induction (sane.executed call)
      change (db.execute call).1.node.held (name, key) = _
      rw [node]
      by_cases same : key = pair.1
      · subst key
        exact Node.offer_of_held (msetChange name version pair) held
          (by simp [msetValue, Record.expired]) le_rfl
      · rw [(Node.offer_elsewhere _ _ _ single (by simp [msetChange, Change.place, same])).1]
        exact held

/-- An older key gets the first of its values. -/
theorem Accepts.first {pairs : List (Bytes × Bytes)} {calls : List Call} {final : Db}
    (accepts : Accepts name version db pairs calls final) (sane : Sane config db)
    (portable : version.Portable) {key value : Bytes}
    (older : db.node.Older (name, key) version) (found : firstValue pairs key = some value) :
    final.held (name, key) = some (msetValue version value) := by
  induction accepts with
  | done => cases found
  | @next db final pair rest call calls args selected listening accepted more induction =>
      rcases offered_pair sane portable args selected listening accepted with
        ⟨log, record, single, node⟩
      have olderLog : Node.Older { db.node with log } (name, key) version :=
        ⟨older.held, older.tomb, older.watermark⟩
      by_cases same : pair.1 = key
      · have value_ : pair.2 = value := by simpa [firstValue, same] using found
        subst key
        subst value
        apply more.settled (sane.executed call) portable
        change (db.execute call).1.node.held (name, pair.1) = _
        rw [node]
        exact Node.offer_of_older (msetChange name version pair) olderLog single
      · apply induction (sane.executed call)
        · rw [node]
          exact olderLog.offer_elsewhere single
            (by simp [msetChange, Change.place, Ne.symm same])
        · simpa [firstValue, same] using found

end Db

open Db

/-- A node and its only peer, both fresh. -/
def writer : Db :=
  fresh { nodeId := 1, peerCount := 1 } 1750000000000

def reader : Db :=
  fresh { nodeId := 2, peerCount := 1 } 1750000000000

end SomniumDB
