import SomniumDB.Abstract.Executed
import SomniumDB.Abstract.History
import SomniumDB.Abstract.Plain
import SomniumDB.Core.ErrorLines

/-! # Refused commands leave nothing behind

A command that writes either is refused, and then leaves the unexpired keys, the
tombstones and the log as they were, or appends to the log the records that describe
what it changed. -/

namespace SomniumDB

open Bytes LastUpdate

/-- The replies that say that nothing was done. -/
def Refusal (resp3 : Bool) (reply : Bytes) : Prop :=
  reply.head? = some 45 ∨ reply = nil resp3 ∨ reply = integer 0 ∨ reply = Db.ignoredStale

namespace Node

/-- The unexpired keys, the tombstones and the log are as they were. -/
structure Idle (now : Nat) (node after : Node) : Prop where
  held : ∀ place, unexpired now (after.held place) = unexpired now (node.held place)
  tomb : after.tomb = node.tomb
  log : after.log = node.log

/-- The log has grown by records that say what has changed: a place that they name has
what the last of them gives it, and every other place is as it was. -/
structure Described (now : Nat) (node after : Node) (records : List AofRecord) : Prop where
  log : after.log = node.log ++ records
  written : ∀ place change,
    last Change.place (records.flatMap AofRecord.changes) place = some change →
      unexpired now (after.held place) = unexpired now change.result
  others : ∀ place, last Change.place (records.flatMap AofRecord.changes) place = none →
    unexpired now (after.held place) = unexpired now (node.held place) ∧
      after.tomb place = node.tomb place

variable {node after : Node} {now : Nat}

theorem Idle.refl : Idle now node node :=
  ⟨fun _ => rfl, rfl, rfl⟩

theorem Idle.trans {third : Node} (left : Idle now node after) (right : Idle now after third) :
    Idle now node third :=
  ⟨fun place => (right.held place).trans (left.held place), right.tomb.trans left.tomb,
    right.log.trans left.log⟩

theorem idle_touch (now : Nat) (node : Node) (place : Place) :
    Idle now node (node.touch now place) := by
  refine ⟨fun other => ?_, rfl, rfl⟩
  unfold touch
  rw [hold_held]
  by_cases same : other = place
  · rw [if_pos same]
    rw [same]
    exact unexpired_later le_rfl _
  · rw [if_neg same]

theorem idle_observe (now : Nat) (node : Node) (ts : Nat) : Idle now node (node.observe ts) :=
  ⟨fun _ => rfl, rfl, rfl⟩

theorem idle_touchAll (now : Nat) (node : Node) (places : List Place) :
    Idle now node (node.touchAll now places) := by
  induction places generalizing node with
  | nil => exact .refl
  | cons place rest induction => exact (idle_touch now node place).trans (induction _)

theorem Idle.describes {third : Node} {records : List AofRecord} (idle : Idle now node after)
    (described : Described now after third records) : Described now node third records := by
  refine ⟨?_, described.written, fun place none => ?_⟩
  · rw [described.log, idle.log]
  · rcases described.others place none with ⟨held, tomb⟩
    exact ⟨held.trans (idle.held place), tomb.trans (by rw [idle.tomb])⟩

theorem Idle.nothing (idle : Idle now node after) : Described now node after [] :=
  ⟨idle.log.trans (List.append_nil _).symm, by rintro _ _ ⟨⟩,
    fun place _ => ⟨idle.held place, by rw [idle.tomb]⟩⟩

theorem Described.trans {third : Node} {front back : List AofRecord}
    (left : Described now node after front) (right : Described now after third back) :
    Described now node third (front ++ back) := by
  have split : ∀ place, last Change.place ((front ++ back).flatMap AofRecord.changes) place =
      (last Change.place (back.flatMap AofRecord.changes) place).or
        (last Change.place (front.flatMap AofRecord.changes) place) := by
    intro place
    rw [List.flatMap_append, last_append]
  refine ⟨?_, fun place change found => ?_, fun place found => ?_⟩
  · rw [right.log, left.log, List.append_assoc]
  · rw [split] at found
    cases later : last Change.place (back.flatMap AofRecord.changes) place with
    | some latest =>
        rw [later] at found
        cases found
        exact right.written place _ later
    | none =>
        rw [later, Option.none_or] at found
        rw [(right.others place later).1]
        exact left.written place change found
  · rw [split, Option.or_eq_none_iff] at found
    rcases right.others place found.1 with ⟨held, tomb⟩
    rcases left.others place found.2 with ⟨heldBefore, tombBefore⟩
    exact ⟨held.trans heldBefore, tomb.trans tombBefore⟩

theorem tomb_apply (config : Config) (node : Node) (change : Change) {place : Place}
    (other : place ≠ change.place) : (node.apply config change).tomb place = node.tomb place := by
  cases change with
  | put target record =>
      have apart : place ≠ target := other
      change ((if (node.held target).isNone then node.bury target none else node).hold target
        (some record)).tomb place = _
      rw [hold_tomb]
      by_cases absent : (node.held target).isNone = true
      · rw [if_pos absent]
        rw [bury_tomb, if_neg apart]
      · rw [if_neg absent]
  | del target version =>
      have apart : place ≠ target := other
      change ((node.hold target none).mark config target version).tomb place = _
      unfold mark
      rw [bury_tomb, if_neg apart]
      rfl

theorem tomb_applyAll (config : Config) (node : Node) (changes : List Change) {place : Place}
    (others : ∀ change ∈ changes, change.place ≠ place) :
    (node.applyAll config changes).tomb place = node.tomb place := by
  induction changes generalizing node with
  | nil => rfl
  | cons change rest induction =>
      refine (induction _ fun other member => others other (List.mem_cons_of_mem _ member)).trans ?_
      exact tomb_apply config node change (others change List.mem_cons_self).symm

/-- A record that is committed describes what it changes. -/
theorem described_commit (config : Config) (now : Nat) (node : Node) (record : AofRecord) :
    Described now node (node.commit config record) [record] := by
  have same : [record].flatMap AofRecord.changes = record.changes := List.flatMap_singleton _ _
  have held : ∀ place, (node.commit config record).held place =
      ((last Change.place record.changes place).map Change.result).getD (node.held place) :=
    applyAll_held config node record.changes
  refine ⟨rfl, fun place change found => ?_, fun place found => ?_⟩
  · rw [same] at found
    rw [held, found]
    rfl
  · rw [same] at found
    refine ⟨by rw [held, found]; rfl, ?_⟩
    exact tomb_applyAll config node record.changes (last_eq_none_iff.mp found)

/-! ## The commands on the plain store -/

/-- What a command that writes may do to the plain store. -/
inductive Wrote (now : Nat) (resp3 : Bool) (node : Node)
    (counts : List AofRecord → Bytes → Prop) : Node × Bytes → Prop
  | refused {outcome : Node × Bytes} (refusal : Refusal resp3 outcome.2)
      (idle : Idle now node outcome.1) : Wrote now resp3 node counts outcome
  | accepted {outcome : Node × Bytes} (records : List AofRecord)
      (answered : ¬Refusal resp3 outcome.2) (described : Described now node outcome.1 records)
      (counted : counts records outcome.2) : Wrote now resp3 node counts outcome

/-- One record was logged. -/
def Single (records : List AofRecord) (_ : Bytes) : Prop :=
  ∃ record, records = [record]

theorem refusal_error {resp3 : Bool} {reply : Bytes} (negative : reply.head? = some 45) :
    Refusal resp3 reply := .inl negative

theorem not_refusal_of_plus {resp3 : Bool} {reply : Bytes} (positive : reply.head? = some 43)
    (done : reply ≠ Db.ignoredStale) : ¬Refusal resp3 reply := by
  rintro (negative | isNil | isZero | stale)
  · rw [positive] at negative
    cases negative
  · rw [isNil] at positive
    cases resp3 <;> exact absurd positive (by decide)
  · rw [isZero] at positive
    exact absurd positive (by decide)
  · exact done stale

theorem admitVersion_error {config : Config} {now : Nat} {tsArg nodeArg err : Bytes}
    (refused : admitVersion config now tsArg nodeArg = .error err) : err.head? = some 45 := by
  unfold admitVersion at refused
  split at refused
  · split at refused
    · cases refused
      decide
    · dsimp only at refused
      split at refused
      · cases refused
        decide
      · cases refused
  · cases refused
    decide

section Writers

variable {config : Config} {name : Bytes} {resp3 : Bool} {counts : List AofRecord → Bytes → Prop}

theorem wrote_error {err : Bytes} (negative : err.head? = some 45) :
    Wrote now resp3 node counts (node, err) :=
  .refused (refusal_error negative) .refl

theorem wrote_wrongArguments (command : Bytes) :
    Wrote now resp3 node counts (node, wrongArguments command) :=
  wrote_error rfl

/-- A record is committed after places have been read. -/
theorem wrote_commit {read : Node} (idle : Idle now node read) (record : AofRecord) {reply : Bytes}
    (positive : reply.head? = some 43) (done : reply ≠ Db.ignoredStale) :
    Wrote now resp3 node Single (read.commit config record, reply) :=
  .accepted [record] (not_refusal_of_plus positive done)
    (idle.describes (described_commit config now read record)) ⟨record, rfl⟩

theorem wrote_plainSet (args : List Bytes) :
    Wrote now resp3 node Single (node.plainSet config now resp3 name args) := by
  match args with
  | [] => exact wrote_wrongArguments _
  | [_] => exact wrote_wrongArguments _
  | [_, _] => exact wrote_wrongArguments _
  | _ :: key :: _ :: options =>
      have idle := idle_touch now node (name, key)
      unfold plainSet
      dsimp only
      cases parsed : Db.setOptions now {} options with
      | error err => exact wrote_error (Db.setOptions_error parsed).head
      | ok options =>
          dsimp only
          by_cases conditional : (options.nx &&
              ((touch now node (name, key)).held (name, key)).isSome || options.xx &&
              ((touch now node (name, key)).held (name, key)).isNone) = true
          · rw [if_pos conditional]
            exact .refused (.inr (.inl rfl)) idle
          · rw [if_neg conditional]
            exact wrote_commit idle _ (by decide) (by decide)

theorem wrote_plainMset (args : List Bytes) :
    Wrote now resp3 node Single (node.plainMset config now name args) := by
  unfold plainMset
  by_cases malformed : args.length < 3 ∨ args.length % 2 = 0
  · rw [if_pos malformed]
    exact wrote_wrongArguments _
  · rw [if_neg malformed]
    have touched := Db.plainOverwritten_touchAll node now 0 name (Db.pairsOf args.tail)
    dsimp only
    rcases looped : node.plainOverwritten now name 0 (Db.pairsOf args.tail) with ⟨read, greatest⟩
    rw [looped] at touched
    obtain rfl : read = node.touchAll now ((Db.pairsOf args.tail).map fun pair => (name, pair.1)) :=
      touched
    exact wrote_commit (idle_touchAll now node _) _ (by decide) (by decide)

theorem wrote_plainMerge (key : Bytes) (args : List Bytes) (expireAt : Option Int)
    (version : Version) :
    Wrote now resp3 node Single (node.plainMerge config now name key args expireAt version) := by
  have idle := (idle_observe now node version.ts).trans (idle_touch now _ (name, key))
  unfold plainMerge
  dsimp only
  by_cases stale :
      (touch now (node.observe version.ts) (name, key)).stale (name, key) version = true
  · rw [if_pos stale]
    exact .refused (.inr (.inr (.inr rfl))) idle
  · rw [if_neg stale]
    exact wrote_commit idle _ (by decide) (by decide)

theorem wrote_plainCrdtmerge (args : List Bytes) :
    Wrote now resp3 node Single (node.plainCrdtmerge config now name args) := by
  match args with
  | [] => exact wrote_error (by decide)
  | [_] => exact wrote_error (by decide)
  | [_, _] => exact wrote_error (by decide)
  | [_, _, _] => exact wrote_error (by decide)
  | [_, _, _, _] => exact wrote_error (by decide)
  | [_, key, _, tsArg, nodeArg] =>
      unfold plainCrdtmerge
      dsimp only
      cases admitted : admitVersion config now tsArg nodeArg with
      | error err => exact wrote_error (admitVersion_error admitted)
      | ok version => exact wrote_plainMerge key _ none version
  | [_, key, _, tsArg, nodeArg, expireArg] =>
      unfold plainCrdtmerge
      dsimp only
      cases FsUtil.parseI64 expireArg with
      | none => exact wrote_error (by decide)
      | some expireAt =>
          dsimp only
          by_cases negative : expireAt < 0
          · rw [if_pos negative]
            exact wrote_error (by decide)
          · rw [if_neg negative]
            cases admitted : admitVersion config now tsArg nodeArg with
            | error err => exact wrote_error (admitVersion_error admitted)
            | ok version => exact wrote_plainMerge key _ (some expireAt) version
  | _ :: _ :: _ :: _ :: _ :: _ :: _ :: _ => exact wrote_error (by decide)

theorem wrote_plainCrdtdel (args : List Bytes) :
    Wrote now resp3 node Single (node.plainCrdtdel config now name args) := by
  match args with
  | [] => exact wrote_error (by decide)
  | [_] => exact wrote_error (by decide)
  | [_, _] => exact wrote_error (by decide)
  | [_, _, _] => exact wrote_error (by decide)
  | [_, key, tsArg, nodeArg] =>
      unfold plainCrdtdel
      dsimp only
      cases admitted : admitVersion config now tsArg nodeArg with
      | error err => exact wrote_error (admitVersion_error admitted)
      | ok version =>
          have idle := (idle_observe now node version.ts).trans (idle_touch now _ (name, key))
          dsimp only
          by_cases stale :
              (touch now (node.observe version.ts) (name, key)).stale (name, key) version = true
          · rw [if_pos stale]
            exact .refused (.inr (.inr (.inr rfl))) idle
          · rw [if_neg stale]
            exact wrote_commit idle _ (by decide) (by decide)
  | _ :: _ :: _ :: _ :: _ :: _ => exact wrote_error (by decide)

/-! ## Deletes and deadlines -/

/-- One record for each of the keys that was there, whatever its place in the list. -/
def Removed (now : Nat) (name : Bytes) (node : Node) (keys : List Bytes)
    (records : List AofRecord) : Prop :=
  ∃ removed : List Bytes, records.map AofRecord.args = removed.map (fun key => [ascii "DEL", key]) ∧
    removed.Nodup ∧
    ∀ key, key ∈ removed ↔ key ∈ keys ∧ (unexpired now (node.held (name, key))).isSome

theorem touch_self (now : Nat) (node : Node) (place : Place) :
    (node.touch now place).held place = unexpired now (node.held place) := by
  unfold touch
  rw [hold_held, if_pos rfl]
  rfl

theorem last_delRecord (name key : Bytes) (version : Version) (place : Place) :
    last Change.place ([delRecord name key version].flatMap AofRecord.changes) place =
      if (name, key) = place then some (.del (name, key) version) else none := by
  have changes : (delRecord name key version).changes = [.del (name, key) version] :=
    Db.changes_del rfl
  rw [List.flatMap_singleton, changes]
  exact last_concat [] _ _

theorem described_plainDelLoop (config : Config) (now : Nat) (name : Bytes) (node : Node)
    (deleted : Nat) (keys : List Bytes) :
    ∃ records, Described now node (node.plainDelLoop config now name deleted keys).1 records ∧
      Removed now name node keys records ∧
      (node.plainDelLoop config now name deleted keys).2 = deleted + records.length := by
  induction keys generalizing node deleted with
  | nil => exact ⟨[], Idle.nothing .refl, ⟨[], rfl, List.nodup_nil, by simp⟩, rfl⟩
  | cons key rest induction =>
      have idle := idle_touch now node (name, key)
      have here := touch_self now node (name, key)
      unfold plainDelLoop
      dsimp only
      cases found : (node.touch now (name, key)).held (name, key) with
      | none =>
          rw [found] at here
          rcases induction (node.touch now (name, key)) deleted with
            ⟨records, described, ⟨removed, equal, distinct, precise⟩, count⟩
          refine ⟨records, idle.describes described, ⟨removed, equal, distinct, ?_⟩, count⟩
          intro other
          rw [precise, idle.held, List.mem_cons]
          constructor
          · exact fun both => ⟨.inr both.1, both.2⟩
          · rintro ⟨same | listed, present⟩
            · rw [same, ← here] at present
              cases present
            · exact ⟨listed, present⟩
      | some record =>
          rw [found] at here
          dsimp only
          generalize (⟨Hlc.next (node.touch now (name, key)).clock now
            record.timestampMs, config.nodeId⟩ : Version) = version
          have first : Described now node ((node.touch now (name, key)).commit config
              (delRecord name key version)) [delRecord name key version] :=
            idle.describes (described_commit config now _ _)
          generalize (node.touch now (name, key)).commit config (delRecord name key version) =
            mid at first ⊢
          rcases induction mid (deleted + 1) with
            ⟨records, described, ⟨removed, equal, distinct, precise⟩, count⟩
          have gone : unexpired now (mid.held (name, key)) = none := by
            refine first.written (name, key) (.del (name, key) version) ?_
            rw [last_delRecord, if_pos rfl]
          have same : ∀ other, other ≠ key →
              unexpired now (mid.held (name, other)) = unexpired now (node.held (name, other)) := by
            intro other different
            refine (first.others (name, other) ?_).1
            rw [last_delRecord, if_neg]
            rintro ⟨⟩
            exact different rfl
          refine ⟨delRecord name key version :: records, first.trans described,
            ⟨key :: removed, ?_, ?_, ?_⟩, ?_⟩
          · rw [List.map_cons, List.map_cons, equal]
            rfl
          · refine List.nodup_cons.mpr ⟨?_, distinct⟩
            rw [precise, gone]
            rintro ⟨_, ⟨⟩⟩
          · intro other
            by_cases isKey : other = key
            · rw [isKey, ← here]
              simp
            · rw [List.mem_cons, List.mem_cons, precise, same other isKey]
              simp [isKey]
          · rw [count, List.length_cons]
            omega

theorem integer_ne_zero {count : Nat} (positive : count ≠ 0) : integer count ≠ integer 0 := by
  intro same
  have digits : decimal count ++ Resp.crlf = decimal 0 ++ Resp.crlf := List.tail_eq_of_cons_eq same
  exact positive (decimal_injective (List.append_cancel_right digits))

theorem not_refusal_integer {count : Nat} (positive : count ≠ 0) :
    ¬Refusal resp3 (integer count) := by
  rintro (negative | isNil | isZero | stale)
  · cases negative
  · cases resp3 <;> cases isNil
  · exact integer_ne_zero positive isZero
  · cases stale

theorem Described.idle {read : Node} (described : Described now node read []) :
    Idle now node read :=
  ⟨fun place => (described.others place rfl).1, funext fun place => (described.others place rfl).2,
    described.log.trans (List.append_nil _)⟩

/-- What `DEL` logs, with the reply that says how many keys it removed. -/
def Deleted (now : Nat) (name : Bytes) (node : Node) (keys : List Bytes)
    (records : List AofRecord) (reply : Bytes) : Prop :=
  Removed now name node keys records ∧ reply = integer records.length

theorem wrote_plainDel (args : List Bytes) :
    Wrote now resp3 node (Deleted now name node args.tail)
      (node.plainDel config now name args) := by
  match args with
  | [] => exact wrote_wrongArguments _
  | [_] => exact wrote_wrongArguments _
  | _ :: key :: rest =>
      rcases described_plainDelLoop config now name node 0 (key :: rest) with
        ⟨records, described, removed, count⟩
      unfold plainDel
      dsimp only
      rcases looped : node.plainDelLoop config now name 0 (key :: rest) with ⟨after, deleted⟩
      rw [looped] at described count
      obtain rfl : deleted = records.length := count.trans (Nat.zero_add _)
      by_cases nothing : records = []
      · subst nothing
        exact .refused (.inr (.inr (.inl rfl))) described.idle
      · have positive : records.length ≠ 0 := fun zero =>
          nothing (List.eq_nil_of_length_eq_zero zero)
        exact .accepted records (not_refusal_integer positive) described ⟨removed, rfl⟩

/-- A key that is there is removed by one record. -/
theorem wrote_plainDel_present {key : Bytes} {record : Record}
    (present : (node.touch now (name, key)).held (name, key) = some record) :
    Wrote now resp3 node Single
      ((node.touch now (name, key)).plainDel config now name [ascii "DEL", key]) := by
  have idle := idle_touch now node (name, key)
  have again : (node.touch now (name, key)).touch now (name, key) = node.touch now (name, key) :=
    touch_of_current (touch_current now node (name, key))
  unfold plainDel plainDelLoop
  dsimp only
  rw [again, present]
  exact .accepted [_] (not_refusal_integer Nat.one_ne_zero)
    (idle.describes (described_commit config now _ _)) ⟨_, rfl⟩

theorem wrote_plainExpire (args : List Bytes) (scale : Int) :
    Wrote now resp3 node Single (node.plainExpire config now name args scale) := by
  unfold plainExpire
  by_cases shape : (if scale ≠ 0 then args.length < 3 else args.length ≠ 2)
  · rw [if_pos shape]
    exact wrote_wrongArguments _
  · rw [if_neg shape]
    cases parsed : Db.expireOptions {} (args.drop 3) with
    | error err => exact wrote_error (Db.expireOptions_error parsed)
    | ok options =>
        dsimp only
        by_cases clash : (options.nx && (options.xx || options.gt || options.lt)) = true
        · rw [if_pos clash]
          exact wrote_error (by decide)
        · rw [if_neg clash]
          by_cases both : (options.gt && options.lt) = true
          · rw [if_pos both]
            exact wrote_error (by decide)
          · rw [if_neg both]
            cases asked : Db.expireDeadline now scale args with
            | error err => exact wrote_error (Db.expireDeadline_error asked).head
            | ok deadline =>
                rcases deadline with ⟨amount, expireAt⟩
                dsimp only
                generalize args[1]?.getD [] = key
                have idle := idle_touch now node (name, key)
                unfold plainDeadline
                dsimp only
                cases present : (node.touch now (name, key)).held (name, key) with
                | none => exact .refused (.inr (.inr (.inl rfl))) idle
                | some record =>
                    dsimp only
                    by_cases unmoved : scale = 0 ∧ record.expireAt = 0 ∨
                        Db.expireRefused options record expireAt = true
                    · rw [if_pos unmoved]
                      exact .refused (.inr (.inr (.inl rfl))) idle
                    · rw [if_neg unmoved]
                      by_cases spent : scale ≠ 0 ∧ amount ≤ 0
                      · rw [if_pos spent]
                        exact wrote_plainDel_present present
                      · rw [if_neg spent]
                        exact .accepted [_] (not_refusal_integer Nat.one_ne_zero)
                          (idle.describes (described_commit config now _ _)) ⟨_, rfl⟩

/-- What a command that was not refused logs. -/
def Logged (now : Nat) (name : Bytes) (node : Node) (args : List Bytes) :
    RoomCommand → List AofRecord → Bytes → Prop
  | .del => Deleted now name node args.tail
  | _ => Single

end Writers

end Node

/-- The commands that write keys. -/
def RoomCommand.writes : RoomCommand → Bool
  | .set | .mset | .del | .expire | .pexpire | .persist | .crdtmerge | .crdtdel => true
  | _ => false

theorem Node.wrote_plain (config : Config) (now : Nat) (resp3 : Bool) (name : Bytes) (node : Node)
    (args : List Bytes) {kind : RoomCommand} (writes : kind.writes = true) :
    Wrote now resp3 node (Logged now name node args kind)
      (node.plain config now resp3 name args kind) := by
  cases kind with
  | set => exact wrote_plainSet args
  | mset => exact wrote_plainMset args
  | del => exact wrote_plainDel args
  | expire => exact wrote_plainExpire args 1000
  | pexpire => exact wrote_plainExpire args 1
  | persist => exact wrote_plainExpire args 0
  | crdtmerge => exact wrote_plainCrdtmerge args
  | crdtdel => exact wrote_plainCrdtdel args
  | _ => exact absurd writes (by decide)

/-! ## Whole commands -/

namespace Db

variable {config : Config} {db : Db} {call : Call}

/-- A command in a room means what it means on the plain store, unless it does not reach
its handler. -/
theorem execute_plain (sane : Sane config db) {first : Bytes}
    (head : call.args.head? = some first) {kind : RoomCommand}
    (named : Command.named (upper first) = .inRoom kind) :
    (Refusal call.resp3 (db.execute call).2 ∧
        (db.execute call).1.node = (db.beginCommand call).node) ∨
      ((db.execute call).1.node, (db.execute call).2) =
        (db.beginCommand call).node.plain db.config call.now call.resp3
          (db.clientRoom call.clientFd) call.args kind := by
  cases listening : call.subscribed with
  | true =>
      rcases List.head?_eq_some_iff.mp head with ⟨rest, args⟩
      have refused : db.execute call = ((db.beginCommand call).setClientRoom call.clientFd
          ((db.beginCommand call).clientRoom call.clientFd), ascii
          "-ERR Clientul este in mod SUBSCRIBE. Nu poti trimite comenzi de Database!\r\n") := by
        unfold execute
        rw [args]
        simp only [dispatch, named, listening, if_true]
      rw [refused]
      exact .inl ⟨.inl rfl, rfl⟩
  | false =>
      rcases execute_inRoom sane head named listening with
        ⟨_, reply, node⟩ | ⟨_, awake, entered, reply, node⟩
      · refine .inl ⟨.inl ?_, node⟩
        rw [reply]
        decide
      · have means := means_runInRoom entered.wellFormed entered.awake call.now call.resp3 head
          named
        rw [entered.node, entered.config] at means
        refine .inr (Prod.ext ?_ ?_)
        · exact node.trans means.acts.node
        · exact reply.trans means.reply

theorem aof_beginCommand (db : Db) (call : Call) :
    (db.beginCommand call).aof = db.aof ∨
      ∃ child, db.rewriteChild = some child ∧ child.finished = true ∧ child.failed = false ∧
        (db.beginCommand call).aof = child.written ++ db.aof.drop db.rewriteFrom := by
  have begun : (db.beginCommand call).aof = db.finishBackgroundRewrite.aof := by
    rcases beginCommand_cases db call with same | ⟨idle, forked⟩
    · rw [same]
    · rw [forked]
      unfold startBackgroundRewrite
      cases db.finishBackgroundRewrite.rewriteChild with
      | none => rfl
      | some _ => rfl
  rw [begun]
  rcases finishBackgroundRewrite_cases db with
    same | ⟨child, running, finished, ⟨_, dropped⟩ | ⟨passed, committed⟩⟩
  · exact .inl (by rw [same])
  · exact .inl (by rw [dropped])
  · exact .inr ⟨child, running, finished, passed, by rw [committed]⟩

/-- A writing command in any reachable state. If the reply is a refusal, the unexpired
keys, the tombstones and the log are as the command found them; if it is not, the log has
grown by the records that describe what has changed. The log that the command finds is
the one that was there, unless a background rewrite has finished meanwhile. -/
theorem refusals_leave_nothing (reachable : Reachable config db) (call : Call) {first : Bytes}
    (head : call.args.head? = some first) (kind : RoomCommand)
    (named : Command.named (upper first) = .inRoom kind) (writes : kind.writes = true) :
    let begun := db.beginCommand call
    let after := (db.execute call).1
    let reply := (db.execute call).2
    (Refusal call.resp3 reply →
        (∀ place, unexpired call.now (after.held place) = unexpired call.now (db.held place)) ∧
          (∀ name key, after.findTomb name key = db.findTomb name key) ∧
          after.aof = begun.aof) ∧
      (¬Refusal call.resp3 reply →
        ∃ records, Node.Described call.now { db.node with log := begun.aof } after.node records ∧
          Node.Logged call.now (db.clientRoom call.clientFd) db.node call.args kind records
            reply) ∧
      (begun.aof = db.aof ∨
        ∃ child, db.rewriteChild = some child ∧ child.finished = true ∧ child.failed = false ∧
          begun.aof = child.written ++ db.aof.drop db.rewriteFrom) := by
  intro begun after reply
  have sane := sane_of_reachable reachable
  rcases node_beginCommand sane call with ⟨log, begunNode⟩
  have sameLog : begun.aof = log := congrArg Node.log begunNode
  have start : begun.node = { db.node with log := begun.aof } := by
    rw [sameLog]
    exact begunNode
  refine ⟨?_, ?_, aof_beginCommand db call⟩
  · intro refusal
    have idle : Node.Idle call.now begun.node after.node := by
      rcases execute_plain sane head named with ⟨_, same⟩ | equal
      · have unchanged : after.node = begun.node := same
        rw [unchanged]
        exact .refl
      · have wrote := Node.wrote_plain db.config call.now call.resp3
          (db.clientRoom call.clientFd) begun.node call.args writes
        rw [← equal] at wrote
        cases wrote with
        | refused _ idle => exact idle
        | accepted _ answered _ _ => exact absurd refusal answered
    rw [start] at idle
    exact ⟨idle.held, fun name key => congrFun idle.tomb (name, key), idle.log⟩
  · intro answered
    rcases execute_plain sane head named with ⟨refusal, _⟩ | equal
    · exact absurd refusal answered
    · have wrote := Node.wrote_plain db.config call.now call.resp3
        (db.clientRoom call.clientFd) begun.node call.args writes
      rw [← equal] at wrote
      cases wrote with
      | refused refusal _ => exact absurd refusal answered
      | accepted records _ described counted =>
          rw [start] at described counted
          refine ⟨records, described, ?_⟩
          cases kind <;> exact counted

/-- A key has been written twice and the log rewritten in the background; the child has
finished, and no command has come since. -/
def rewritten : Db :=
  (fresh {} 1000).run
    [clientCall 1000 [ascii "SET", ascii "k", ascii "a"],
      clientCall 1000 [ascii "SET", ascii "k", ascii "b"], clientCall 1000 [ascii "REWRITEAOF"],
      .childStep 1001, .childStep 1001, .childStep 1001]

def shortSet : Call :=
  { clientFd := 5, args := [ascii "SET"], now := 1002 }

theorem reachable_rewritten : Reachable {} rewritten :=
  ⟨1000, _, rfl⟩

/-- A command that is refused may still be the one that finds the rewrite finished. -/
theorem refusal_commits_rewrite :
    Reachable {} rewritten ∧ Command.named (upper (ascii "SET")) = .inRoom .set ∧
      Refusal false (rewritten.execute shortSet).2 ∧
      (rewritten.execute shortSet).1.aof ≠ rewritten.aof := by
  refine ⟨reachable_rewritten, by decide, .inl (by decide +kernel), ?_⟩
  intro same
  have length := congrArg List.length same
  exact absurd length (by decide +kernel)

theorem refusals_leave_nothing_short :
    Refusal false (rewritten.execute shortSet).2 ∧
      unexpired 1002 ((rewritten.execute shortSet).1.held (defaultRoom, ascii "k")) =
        unexpired 1002 (rewritten.held (defaultRoom, ascii "k")) :=
  ⟨.inl (by decide +kernel),
    ((refusals_leave_nothing reachable_rewritten shortSet rfl .set (by decide)
      rfl).1 (.inl (by decide +kernel))).1 (defaultRoom, ascii "k")⟩

end Db

end SomniumDB
