import Mathlib.Data.List.TakeWhile
import SomniumDB.Abstract.Pipeline
import SomniumDB.Core.ErrorLines
import SomniumDB.Storage.ReplyLines

/-! # What a worker counts is what the peer replied

The peer replies to every command of a pipeline with one line. So the loop of
`deliver`, which looks for line ends in what arrives, finds exactly these
replies, in whatever pieces the connection hands them over. -/

namespace SomniumDB

open Bytes FsUtil Resp Replicator

/-- A status or an error. -/
def SingleLine (reply : Bytes) : Prop :=
  StatusLine reply ∨ ErrorLine reply

instance (reply : Bytes) : Decidable (SingleLine reply) :=
  inferInstanceAs (Decidable (_ ∨ _))

/-- The line without its end. -/
def lineOf (reply : Bytes) : Bytes :=
  reply.take (reply.length - 2)

theorem lineOf_spec {reply : Bytes} (single : SingleLine reply) :
    reply = lineOf reply ++ crlf ∧ 13 ∉ lineOf reply ∧ reply.head? = (lineOf reply).head? := by
  have tagged : ∃ tag text, tag ≠ (13 : UInt8) ∧ 13 ∉ text ∧ reply = (tag :: text) ++ crlf := by
    rcases single with status | error
    · exact ⟨43, lineText reply, by decide, status.2.1, status.1⟩
    · exact ⟨45, lineText reply, by decide, error.2.1, error.1⟩
  rcases tagged with ⟨tag, text, plain, absent, same⟩
  have line : lineOf reply = tag :: text := by
    simp [lineOf, same, crlf]
  rw [line]
  refine ⟨same, ?_, ?_⟩
  · intro member
    rcases List.mem_cons.mp member with equal | inside
    · exact plain equal.symm
    · exact absent inside
  · rw [same]
    rfl

/-- Replies of one line each are counted one by one. -/
theorem receive_singleLines {replies chunks : List Bytes} {more : Bytes}
    (single : ∀ reply ∈ replies, SingleLine reply) (data : ∀ chunk ∈ chunks, chunk ≠ [])
    (arrived : chunks.flatten = replies.flatten ++ more) :
    receive replies.length chunks {} = some (ackedOf replies) := by
  have whole : receivedText chunks = chunks.flatten := by
    have all : chunks.takeWhile (· ≠ []) = chunks := by
      rw [List.takeWhile_eq_self_iff]
      intro chunk member
      exact decide_eq_true (data chunk member)
    rw [receivedText, all]
  have lines : replies.flatten = (replies.map lineOf).flatMap (· ++ crlf) := by
    clear arrived
    induction replies with
    | nil => rfl
    | cons reply rest induction =>
        rw [List.flatten_cons, List.map_cons, List.flatMap_cons,
          ← (lineOf_spec (single reply List.mem_cons_self)).1,
          induction fun other member => single other (List.mem_cons_of_mem _ member)]
  have acked : ackedOf (replies.map lineOf) = ackedOf replies := by
    clear arrived lines
    induction replies with
    | nil => rfl
    | cons reply rest induction =>
        have head := (lineOf_spec (single reply List.mem_cons_self)).2.2
        have later := induction fun other member => single other (List.mem_cons_of_mem _ member)
        simp only [ackedOf] at later ⊢
        rw [List.map_cons, List.takeWhile_cons, List.takeWhile_cons, ← head]
        by_cases accepted : decide (reply.head? = some 43) = true
        · simp only [if_pos accepted]
          rw [List.length_cons, List.length_cons, later]
        · simp only [if_neg accepted]
  have count : replies.length = (replies.map lineOf).length := (List.length_map _).symm
  have absent : ∀ line ∈ replies.map lineOf, (13 : UInt8) ∉ line := by
    intro line member
    rcases List.mem_map.mp member with ⟨reply, inside, same⟩
    rw [← same]
    exact (lineOf_spec (single reply inside)).2.1
  rw [receive_eq, whole, arrived, lines, count, replyLines_flatten absent, Option.map_some, acked]

/-! ## The replies of the peer -/

namespace Db

theorem singleLine_text (text : String) (line : SingleLine (ascii text)) :
    SingleLine (ascii text) :=
  line

theorem singleLine_mergeInto (db : Db) (now : Nat) (name key value : Bytes) (args : List Bytes)
    (expireAt : Option Int) (version : Version) :
    SingleLine (db.mergeInto now name key value args expireAt version).2 := by
  unfold mergeInto Keyspace.mergeInto
  simp only [Keyspace.ofDb]
  by_cases stale :
      (db.lookup now name key).1.stale name key (db.lookup now name key).2 version = true
  · rw [if_pos stale]
    exact singleLine_text _ (by decide)
  · rw [if_neg stale]
    exact singleLine_text _ (by decide)

theorem singleLine_handleCrdtmerge (db : Db) (now : Nat) (name : Bytes) (args : List Bytes) :
    SingleLine (db.handleCrdtmerge now name args).2 := by
  unfold handleCrdtmerge Keyspace.handleCrdtmerge
  simp only [Keyspace.ofDb]
  match args with
  | [head, key, value, tsArg, nodeArg] =>
      dsimp only
      rcases refused : db.incomingVersion now tsArg nodeArg with _ | ⟨_, _⟩
      · exact .inr (incomingVersion_error refused)
      · exact singleLine_mergeInto _ _ _ _ _ _ _ _
  | [head, key, value, tsArg, nodeArg, expireArg] =>
      dsimp only
      cases parseI64 expireArg with
      | none => exact singleLine_text _ (by decide)
      | some expireAt =>
          dsimp only
          by_cases negative : expireAt < 0
          · rw [if_pos negative]
            exact singleLine_text _ (by decide)
          · rw [if_neg negative]
            rcases refused : db.incomingVersion now tsArg nodeArg with _ | ⟨_, _⟩
            · exact .inr (incomingVersion_error refused)
            · exact singleLine_mergeInto _ _ _ _ _ _ _ _
  | [] | [_] | [_, _] | [_, _, _] | [_, _, _, _] | _ :: _ :: _ :: _ :: _ :: _ :: _ :: _ =>
      exact singleLine_text _ (by decide)

theorem singleLine_handleCrdtdel (db : Db) (now : Nat) (name : Bytes) (args : List Bytes) :
    SingleLine (db.handleCrdtdel now name args).2 := by
  unfold handleCrdtdel Keyspace.handleCrdtdel
  simp only [Keyspace.ofDb]
  match args with
  | [head, key, tsArg, nodeArg] =>
      dsimp only
      rcases refused : db.incomingVersion now tsArg nodeArg with _ | ⟨observed, version⟩
      · exact .inr (incomingVersion_error refused)
      · unfold deleteFrom Keyspace.deleteFrom
        simp only [Keyspace.ofDb]
        by_cases stale :
            (observed.lookup now name key).1.stale name key (observed.lookup now name key).2 version =
            true
        · rw [if_pos stale]
          exact singleLine_text _ (by decide)
        · rw [if_neg stale]
          exact singleLine_text _ (by decide)
  | [] | [_] | [_, _] | [_, _, _] | _ :: _ :: _ :: _ :: _ :: _ =>
      exact singleLine_text _ (by decide)

theorem singleLine_handleReplfrontier (db : Db) (now : Nat) (args : List Bytes) :
    SingleLine (db.handleReplfrontier now args).2 := by
  unfold handleReplfrontier
  dsimp only
  match args with
  | [head, nodeArg, frontierArg] =>
      dsimp only
      split
      · split <;> exact singleLine_text _ (by decide)
      · exact singleLine_text _ (by decide)
  | [] | [_] | [_, _] | _ :: _ :: _ :: _ :: _ => exact singleLine_text _ (by decide)

theorem singleLine_wakeRoom {db : Db} {now : Nat} {name err : Bytes}
    (refused : (db.wakeRoom now name).2 = some err) : SingleLine err := by
  simp only [wakeRoom] at refused
  by_cases invalid : (!validRoomName name) = true
  · rw [if_pos invalid] at refused
    cases refused
    decide
  · rw [if_neg invalid] at refused
    by_cases crowded : name ∉ db.rooms ∧ db.config.maxRooms ≤ db.rooms.toPairs.length
    · rw [if_pos crowded] at refused
      cases refused
      decide
    · rw [if_neg crowded] at refused
      by_cases same : ((db.findRoom name).activate now name false).2 = true
      · rw [if_pos same] at refused
        cases refused
      · rw [if_neg same] at refused
        cases refused
        decide

theorem singleLine_handleRoom (db : Db) (now clientFd : Nat) (name : Bytes) :
    SingleLine (db.handleRoom now clientFd [ascii "ROOM", name]).2 := by
  simp only [handleRoom]
  rcases refused : db.wakeRoom now name with ⟨_, _ | _⟩
  · exact singleLine_text _ (by decide)
  · exact singleLine_wakeRoom (congrArg Prod.snd refused)

/-- The commands that a worker sends. -/
inductive Sent : List Bytes → Prop
  | room (name : Bytes) : Sent [ascii "ROOM", name]
  | merge (args : List Bytes) : Sent (ascii "CRDTMERGE" :: args)
  | delete (args : List Bytes) : Sent (ascii "CRDTDEL" :: args)
  | frontier (args : List Bytes) : Sent (ascii "REPLFRONTIER" :: args)
  | ping : Sent [ascii "PING"]

theorem singleLine_inRoom (db : Db) (call : Call) (name : Bytes) {kind : RoomCommand}
    (data : kind = .crdtmerge ∨ kind = .crdtdel) :
    SingleLine (db.executeInRoom call name kind).2 := by
  unfold executeInRoom executeInRoomWith
  dsimp only
  rcases (db.findRoom name).activate call.now name false with ⟨_, _ | _⟩
  · exact singleLine_text _ (by decide)
  · rcases data with merge | delete
    · rw [merge]
      exact singleLine_handleCrdtmerge _ _ _ _
    · rw [delete]
      exact singleLine_handleCrdtdel _ _ _ _

/-- Every command that a worker sends is replied to with one line. -/
theorem singleLine_execute (db : Db) {call : Call} (sent : Sent call.args)
    (listening : call.subscribed = false) : SingleLine (db.execute call).2 := by
  simp only [execute]
  cases sentArgs : call.args with
  | nil =>
      rw [sentArgs] at sent
      cases sent
  | cons first rest =>
      simp only [dispatch]
      rw [sentArgs] at sent
      cases sent with
      | room name =>
          have named : Command.named (upper (ascii "ROOM")) = .connection .room := by decide
          rw [named]
          simp only [listening, Bool.false_eq_true, if_false, runConnection, sentArgs]
          exact singleLine_handleRoom _ _ _ _
      | merge args =>
          have named : Command.named (upper (ascii "CRDTMERGE")) = .inRoom .crdtmerge := by decide
          rw [named]
          simp only [listening, Bool.false_eq_true, if_false]
          exact singleLine_inRoom _ _ _ (.inl rfl)
      | delete args =>
          have named : Command.named (upper (ascii "CRDTDEL")) = .inRoom .crdtdel := by decide
          rw [named]
          simp only [listening, Bool.false_eq_true, if_false]
          exact singleLine_inRoom _ _ _ (.inr rfl)
      | frontier args =>
          have named : Command.named (upper (ascii "REPLFRONTIER")) =
              .connection .replfrontier := by decide
          rw [named]
          simp only [listening, Bool.false_eq_true, if_false, runConnection]
          exact singleLine_handleReplfrontier _ _ _
      | ping =>
          have named : Command.named (upper (ascii "PING")) = .connection .ping := by decide
          rw [named]
          simp only [runConnection, sentArgs, listening]
          exact singleLine_text _ (by decide)

theorem singleLine_deliver {db : Db} {fd : Nat} {pairs : List (List Bytes × Arrival)}
    (sent : ∀ pair ∈ pairs, Sent pair.1) :
    ∀ reply ∈ (db.deliver fd pairs).2, SingleLine reply := by
  induction pairs generalizing db with
  | nil =>
      intro reply member
      cases member
  | cons pair rest induction =>
      intro reply member
      simp only [deliver] at member
      rcases List.mem_cons.mp member with here | later
      · rw [here]
        exact singleLine_execute _ (sent pair List.mem_cons_self) rfl
      · exact induction (fun other inside => sent other (List.mem_cons_of_mem _ inside)) reply later

theorem length_deliver (db : Db) (fd : Nat) (pairs : List (List Bytes × Arrival)) :
    (db.deliver fd pairs).2.length = pairs.length := by
  induction pairs generalizing db with
  | nil => rfl
  | cons pair rest induction =>
      simp only [deliver, List.length_cons]
      rw [induction]

end Db

/-! ## The commands of a round -/

namespace Replicator

theorem sent_recordCommands {nodeId : Nat} {tokens args : List Bytes}
    (member : args ∈ recordCommands nodeId tokens) : Db.Sent args := by
  simp only [recordCommands] at member
  by_cases enough : 7 ≤ tokens.length ∧ tokens[tokens.length - 4]?.getD [] = AofRecord.kMetaToken ∧
      parseU64 (tokens[tokens.length - 1]?.getD []) = some nodeId
  · rw [if_pos enough] at member
    by_cases deletes : upper (tokens[1]?.getD []) = ascii "DEL" ∨
        upper (tokens[1]?.getD []) = ascii "CRDTDEL"
    · rw [if_pos deletes] at member
      rw [List.mem_singleton.mp member]
      exact .delete _
    · rw [if_neg deletes] at member
      rcases List.mem_map.mp member with ⟨pair, _, same⟩
      rw [← same]
      exact .merge _
  · rw [if_neg enough] at member
    cases member

/-- Everything that has been built so far can be sent. -/
def Build.AllSent (build : Build) : Prop :=
  ∀ item ∈ build.out, Db.Sent item.args

theorem Build.AllSent.send {build : Build} (all : build.AllSent) (room : Bytes)
    {args : List Bytes} (sent : Db.Sent args) : (build.send room args).AllSent := by
  intro item member
  simp only [Build.send] at member
  rcases List.mem_append.mp member with old | new
  · exact all item old
  · by_cases apart : room ≠ build.room
    · rw [if_pos apart] at new
      rcases List.mem_cons.mp new with select | data
      · rw [select]
        exact .room room
      · rw [List.mem_singleton.mp data]
        exact sent
    · rw [if_neg apart] at new
      rw [List.mem_singleton.mp new]
      exact sent

theorem Build.AllSent.record {build : Build} (all : build.AllSent) (nodeId : Nat)
    (tokens : List Bytes) (stop : Nat) : (build.record nodeId tokens stop).AllSent := by
  have sends : ∀ (commands : List (List Bytes)) (state : Build), state.AllSent →
      (∀ args ∈ commands, Db.Sent args) →
        (commands.foldl (fun state args => state.send (tokens.head?.getD []) args)
          state).AllSent := by
    intro commands
    induction commands with
    | nil => exact fun _ held _ => held
    | cons args rest induction =>
        intro state held sent
        apply induction
        · exact held.send _ (sent args List.mem_cons_self)
        · exact fun other member => sent other (List.mem_cons_of_mem _ member)
  exact sends _ build all fun args member => sent_recordCommands member

theorem allSent_buildLoop (nodeId offset : Nat) (buf : Bytes) (fuel pos : Nat) {build : Build}
    (all : build.AllSent) : (buildLoop nodeId offset buf fuel pos build).1.AllSent := by
  induction fuel generalizing pos build with
  | zero => exact all
  | succ fuel induction =>
      simp only [buildLoop]
      split
      · exact induction _ (all.record nodeId _ _)
      · exact all
      · exact all

theorem sent_closing {reached nothing : Prop} [Decidable reached] [Decidable nothing]
    {node frontier : Bytes} {args : List Bytes}
    (closes : (if reached then some [ascii "REPLFRONTIER", node, frontier]
      else if nothing then some [ascii "PING"] else none) = some args) : Db.Sent args := by
  by_cases behind : reached
  · rw [if_pos behind] at closes
    cases closes
    exact .frontier _
  · rw [if_neg behind] at closes
    by_cases empty : nothing
    · rw [if_pos empty] at closes
      cases closes
      exact .ping
    · rw [if_neg empty] at closes
      cases closes

theorem sent_prepare (nodeId frontier : Nat) (peer : Peer) (file : AofFile) :
    ∀ args ∈ (prepare nodeId frontier peer file).2.commands, Db.Sent args := by
  have built : (readBatch nodeId (connect (align peer file)) file).1.AllSent := by
    have empty : Build.AllSent { room := (connect (align peer file)).room } := by
      intro item member
      cases member
    simp only [readBatch]
    split <;> exact allSent_buildLoop _ _ _ _ _ empty
  intro args member
  simp only [Round.commands] at member
  rcases List.mem_append.mp member with item | closing
  · rcases List.mem_map.mp item with ⟨item, inside, same⟩
    rw [← same]
    exact built item inside
  · exact sent_closing (Option.mem_toList.mp closing)

/-- `settle` is given replies, the worker what it has counted of them. -/
theorem settle_eq (peer : Peer) (round : Round) (replies : Option (List Bytes)) :
    settle peer round replies = settleAcked peer round (replies.map ackedOf) := by
  cases replies with
  | none => rfl
  | some replies => rfl

end Replicator

/-- The loop of `deliver` over the bytes of a connection does what a round over
whole replies does: for every content of the log, every state and history of the
peer and every way in which the connection cuts the replies into pieces, the
worker comes out of the round as the replies say. -/
theorem deliver_counts_replies {nodeId frontier fd : Nat} {peer : Peer} {db : Db} {file : AofFile}
    {arrivals : List Arrival}
    (complete : arrivals.length = (prepare nodeId frontier peer file).2.commands.length)
    {chunks : List Bytes} {more : Bytes} (data : ∀ chunk ∈ chunks, chunk ≠ [])
    (arrived : chunks.flatten =
      (db.deliver fd ((prepare nodeId frontier peer file).2.commands.zip arrivals)).2.flatten ++
        more) :
    settleAcked (prepare nodeId frontier peer file).1 (prepare nodeId frontier peer file).2
        (receive (prepare nodeId frontier peer file).2.commands.length chunks {}) =
      settle (prepare nodeId frontier peer file).1 (prepare nodeId frontier peer file).2
        (some (db.deliver fd
          ((prepare nodeId frontier peer file).2.commands.zip arrivals)).2) := by
  have sent : ∀ pair ∈ (prepare nodeId frontier peer file).2.commands.zip arrivals,
      Db.Sent pair.1 :=
    fun pair member => sent_prepare nodeId frontier peer file pair.1
      (List.of_mem_zip member).1
  have count : (db.deliver fd
      ((prepare nodeId frontier peer file).2.commands.zip arrivals)).2.length =
        (prepare nodeId frontier peer file).2.commands.length := by
    rw [Db.length_deliver, List.length_zip, complete, Nat.min_self]
  rw [settle_eq, ← count, receive_singleLines (Db.singleLine_deliver sent) data arrived]
  rfl

/-- A log with one write of the node. -/
def singleWrite : AofFile where
  inode := 7
  bytes := aofBytes
    [{ room := ascii "default", args := [ascii "SET", ascii "k", ascii "v"], timestampMs := 5 }]

/-- The replies of a peer to the round that ships it. -/
def singleReplies : List Bytes :=
  ((Db.fresh { nodeId := 2, peerCount := 1 } 1750000000000).deliver 5
    ((prepare 1 5 {} singleWrite).2.commands.zip
      [{ now := 1750000001000 }, { now := 1750000001000 }, { now := 1750000001000 }])).2

/-- The connection hands them over byte by byte. -/
theorem deliver_counts_replies_bytewise :
    settleAcked (prepare 1 5 {} singleWrite).1 (prepare 1 5 {} singleWrite).2
        (receive (prepare 1 5 {} singleWrite).2.commands.length
          (singleReplies.flatten.map fun byte => [byte]) {}) =
      settle (prepare 1 5 {} singleWrite).1 (prepare 1 5 {} singleWrite).2
        (some singleReplies) := by
  refine @deliver_counts_replies _ _ _ _ _ _ _ (by decide +kernel) _ [] ?_ ?_
  · intro chunk member
    rcases List.mem_map.mp member with ⟨byte, _, same⟩
    rw [← same]
    exact List.cons_ne_nil _ _
  · rw [← List.flatMap_def, List.append_nil]
    exact List.flatMap_singleton' _

end SomniumDB
