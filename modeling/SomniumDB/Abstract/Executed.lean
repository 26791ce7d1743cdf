import SomniumDB.Abstract.History
import SomniumDB.Abstract.Clients

/-! # Whole commands

What `execute` does to the content, for the commands that run in a room: the
room is refused, or the handler acts on the content as it was. -/

namespace SomniumDB

open Bytes FsUtil

namespace Db

variable {db : Db} {config : Config} {call : Call}

/-- Committing or starting a rewrite only touches the log. -/
theorem node_beginCommand (sane : Sane config db) (call : Call) :
    ∃ log, (db.beginCommand call).node = { db.node with log } := by
  have finished : ∃ log, db.finishBackgroundRewrite.node = { db.node with log } := by
    rcases finishBackgroundRewrite_cases db with same | ⟨_, _, _, ⟨_, dropped⟩ | ⟨_, committed⟩⟩
    · exact ⟨db.aof, by rw [same]; rfl⟩
    · exact ⟨db.aof, by rw [dropped]; rfl⟩
    · exact ⟨_, by rw [committed]; rfl⟩
  rcases finished with ⟨log, equal⟩
  rcases beginCommand_cases db call with same | ⟨idle, forked⟩
  · exact ⟨log, by rw [same]; exact equal⟩
  · refine ⟨log, ?_⟩
    rw [forked]
    exact (forked_startBackgroundRewrite sane.finished.wellFormed idle).node.trans equal

/-- The records that a command appends, after the work that precedes it. -/
def appended (db : Db) (call : Call) : List AofRecord :=
  match call.args with
  | [] => []
  | first :: _ =>
      ((db.beginCommand call).dispatch call (upper first)).1.aof.drop
        (db.beginCommand call).aof.length

/-- The log of the command is the log before it and what it appends. -/
theorem appended_of_log {first : Bytes} (head : call.args.head? = some first)
    (new : List AofRecord)
    (grown : (db.execute call).1.aof = (db.beginCommand call).aof ++ new) :
    db.appended call = new := by
  rcases List.head?_eq_some_iff.mp head with ⟨rest, args⟩
  have executed : db.execute call = (db.beginCommand call).dispatch call (upper first) := by
    unfold execute
    rw [args]
  unfold appended
  rw [args]
  dsimp only
  rw [← executed, grown, List.drop_left]

/-- A command can run in the room: it is awake, or there is a place for it
within the budgets. -/
def Opens (db : Db) (name : Bytes) : Prop :=
  (db.room name).state = .active ∨
    db.activeRooms < maxActiveRooms ∧
      db.fits (Room.keysCost { db.room name with keys := db.wakeupRoom name }) = true

theorem activate_iff (db : Db) (now : Nat) (name : Bytes) :
    (db.activate now name false).2 = true ↔ db.Opens name := by
  unfold Opens
  unfold activate
  dsimp only
  by_cases active : (db.room name).state = .active
  · rw [if_pos active]
    simp [active]
  · rw [if_neg active]
    by_cases full : maxActiveRooms ≤ db.activeRooms ∧ (!false) = true
    · rw [if_pos full]
      simp [active, full.1]
    · rw [if_neg full]
      have few : db.activeRooms < maxActiveRooms := by
        rw [not_and_or] at full
        simpa using full
      simp only [active, few, false_or, true_and, Bool.not_false, Bool.true_and]
      split
      · rename_i heavy
        simpa [Room.keysCost] using heavy
      · rename_i light
        simpa [Room.keysCost] using light

theorem opens_iff (db : Db) (now : Nat) (name : Bytes) :
    ((db.findRoom name).activate now name false).2 = true ↔ db.Opens name := by
  have sameRoom := db.room_findRoom name name
  have sameFields : (db.findRoom name).activeRooms = db.activeRooms ∧
      (db.findRoom name).snapshots = db.snapshots ∧
      (db.findRoom name).metrics = db.metrics ∧ (db.findRoom name).config = db.config := by
    unfold findRoom
    by_cases known : name ∈ db.rooms
    · rw [if_pos known]
      exact ⟨rfl, rfl, rfl, rfl⟩
    · rw [if_neg known]
      exact ⟨rfl, rfl, rfl, rfl⟩
  rcases sameFields with ⟨sameActive, sameSnapshots, sameMetrics, sameConfig⟩
  have loaded : (db.findRoom name).wakeupRoom name = db.wakeupRoom name := by
    simp only [wakeupRoom, keysOf, sameRoom, sameSnapshots]
  rw [activate_iff]
  simp only [Opens, fits, loaded, sameRoom, sameActive, sameMetrics, sameConfig]

/-- The database in which a handler runs: the room is awake and the content is
that of the database. -/
structure Entered (db : Db) (call : Call) (entered : Db) : Prop where
  wellFormed : entered.WellFormed
  awake : entered.Awake (db.clientRoom call.clientFd)
  node : entered.node = (db.beginCommand call).node
  config : entered.config = db.config

/-- A command in the client's room. -/
theorem execute_inRoom (sane : Sane config db) {first : Bytes}
    (head : call.args.head? = some first) {kind : RoomCommand}
    (named : Command.named (upper first) = .inRoom kind) (listening : call.subscribed = false) :
    (¬ (db.beginCommand call).Opens (db.clientRoom call.clientFd) ∧
        (db.execute call).2 = roomsFull ∧
        (db.execute call).1.node = (db.beginCommand call).node) ∨
      (db.beginCommand call).Opens (db.clientRoom call.clientFd) ∧
      ∃ awake, Entered db call awake ∧
        (db.execute call).2 = (awake.runInRoom call.now call.resp3
          (db.clientRoom call.clientFd) call.args kind).2 ∧
        (db.execute call).1.node = (awake.runInRoom call.now call.resp3
          (db.clientRoom call.clientFd) call.args kind).1.node := by
  have begun := sane.begun call
  have room := clientRoom_eq (clientRooms_beginCommand db call) call.clientFd
  rcases List.head?_eq_some_iff.mp head with ⟨rest, args⟩
  generalize nameEq : db.clientRoom call.clientFd = name at *
  generalize knownEq : (db.beginCommand call).setClientRoom call.clientFd name = known
  have form : known.WellFormed := by
    rw [← knownEq]
    exact ⟨begun.wellFormed.exclusive, begun.wellFormed.asleep⟩
  have knownNode : known.node = (db.beginCommand call).node := by
    rw [← knownEq]
    rfl
  have knownConfig : known.config = db.config := by
    rw [← knownEq]
    exact begun.config.trans sane.config.symm
  have executed : db.execute call = known.executeInRoom call name kind := by
    simp only [execute, args, dispatch, named, room, knownEq, listening, Bool.false_eq_true,
      if_false]
  have opens : ((known.findRoom name).activate call.now name false).2 = true ↔
      (db.beginCommand call).Opens name := by
    rw [opens_iff, ← knownEq]
    rfl
  rcases open_spec form call.now name with ⟨kept, rearranged, woken⟩
  have sameNode := rearranged.node.trans knownNode
  have sameConfig := kept.config.trans knownConfig
  rw [executed]
  unfold executeInRoom executeInRoomWith
  dsimp only
  split
  · rename_i refused equal
    rw [equal] at sameNode opens
    exact .inl ⟨fun free => Bool.false_ne_true (opens.mpr free), rfl, sameNode⟩
  · rename_i awake equal
    rw [equal] at kept woken sameNode sameConfig opens
    have served : Serves Node.Step call.now _ _ :=
      serves_runInRoom kept.wellFormed (woken rfl) call.resp3 head named
    refine .inr ⟨opens.mp rfl, awake, ⟨kept.wellFormed, by rw [nameEq]; exact woken rfl, sameNode,
      sameConfig⟩, rfl, ?_⟩
    exact (acts_evictDespisedKeys served.wellFormed (served.frame.awake (woken rfl))
      call.victims).node

theorem replied_plus {reply : Bytes} (accepted : reply.head? = some 43) :
    reply ≠ roomsFull := by
  rintro rfl
  simp [roomsFull, ascii] at accepted

/-- A replicated write that was accepted has been offered to the node. -/
theorem execute_crdtmerge (sane : Sane config db)
    {first key value tsArg nodeArg expireArg : Bytes}
    (args : call.args = [first, key, value, tsArg, nodeArg, expireArg])
    (spelled : upper first = ascii "CRDTMERGE")
    (listening : call.subscribed = false) (accepted : (db.execute call).2.head? = some 43) :
    ∃ record, record.room = db.clientRoom call.clientFd ∧ record.Sound ∧
      record.changes = [record.put key value] ∧ Stamped record tsArg nodeArg ∧
      parseI64 expireArg = some record.expireAt ∧
      (db.execute call).1.node = (db.beginCommand call).node.offer db.config call.now record
        (record.put key value) := by
  have head : call.args.head? = some first := by rw [args]; rfl
  have named : Command.named (upper first) = .inRoom .crdtmerge := by
    rw [spelled]
    decide
  rcases execute_inRoom sane head named listening with
    ⟨_, refused, _⟩ | ⟨_, awake, entered, reply, node⟩
  · exact absurd refused (replied_plus accepted)
  · rw [reply] at accepted
    rcases handleCrdtmerge_cases entered.wellFormed entered.awake head spelled with
      ⟨_, negative⟩ | ⟨otherKey, otherValue, _, _, more, record, shape, offered, stamped, deadline⟩
    · exact absurd (accepted.symm.trans negative) (by simp)
    · rw [args] at shape
      cases shape
      refine ⟨record, offered.room, offered.sound, offered.single, stamped, deadline.1, ?_⟩
      rw [node, ← entered.node, ← entered.config]
      exact offered.acts.node

/-- A replicated delete that was accepted has been offered to the node. -/
theorem execute_crdtdel (sane : Sane config db) {key tsArg nodeArg : Bytes}
    (args : call.args = [ascii "CRDTDEL", key, tsArg, nodeArg])
    (listening : call.subscribed = false) (accepted : (db.execute call).2.head? = some 43) :
    ∃ record, record.room = db.clientRoom call.clientFd ∧ record.Sound ∧
      record.changes = [.del (record.room, key) record.version] ∧
      Stamped record tsArg nodeArg ∧
      (db.execute call).1.node = (db.beginCommand call).node.offer db.config call.now record
        (.del (record.room, key) record.version) := by
  have spelled : upper (ascii "CRDTDEL") = ascii "CRDTDEL" := by decide
  have head : call.args.head? = some (ascii "CRDTDEL") := by rw [args]; rfl
  rcases execute_inRoom sane head (by decide : _ = Command.inRoom .crdtdel) listening with
    ⟨_, refused, _⟩ | ⟨_, awake, entered, reply, node⟩
  · exact absurd refused (replied_plus accepted)
  · rw [reply] at accepted
    rcases handleCrdtdel_cases entered.wellFormed entered.awake head spelled with
      ⟨_, negative⟩ | ⟨otherKey, _, _, record, shape, offered, stamped, _⟩
    · exact absurd (accepted.symm.trans negative) (by simp)
    · rw [args] at shape
      cases shape
      have single := offered.single
      rw [← offered.room] at single
      refine ⟨record, offered.room, offered.sound, single, stamped, ?_⟩
      rw [node, ← entered.node, ← entered.config, offered.room]
      exact offered.acts.node

/-- A client that sends one command after the other, with the replies. -/
def serve (db : Db) : List Call → Db × List Bytes
  | [] => (db, [])
  | call :: rest =>
      let (next, reply) := db.execute call
      let (final, replies) := next.serve rest
      (final, reply :: replies)

end Db

end SomniumDB
