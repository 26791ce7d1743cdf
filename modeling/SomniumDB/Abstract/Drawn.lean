import SomniumDB.Abstract.Origin
import SomniumDB.Abstract.Plain

/-! # The versions that a command draws

A command of the node's own appends records whose versions are drawn from the clock, one
after the other, each with the greatest timestamp that its changes overwrite. -/

namespace SomniumDB

open Bytes FsUtil

namespace Node

variable {config : Config} {now : Nat} {node after : Node}

/-- The greatest timestamp that the changes of a record overwrite. -/
def replaces (node : Node) (now : Nat) (record : AofRecord) : Nat :=
  (record.changes.map fun change =>
    (node.touch now change.place).overwritten change.place).foldr max 0

/-- The clock once records have been logged under its versions. -/
def clockAfter (clock : Nat) (records : List AofRecord) : Nat :=
  (records.getLast?.map AofRecord.timestampMs).getD clock

/-- The records carry the node's id and versions of its clock, one after the other. -/
def Drawn (config : Config) (now : Nat) (node : Node) : Nat → List AofRecord → Prop
  | _, [] => True
  | clock, record :: rest =>
      record.nodeId = config.nodeId ∧
        record.timestampMs = Hlc.next clock now (node.replaces now record) ∧
        Drawn config now node record.timestampMs rest

theorem clockAfter_cons (clock : Nat) (record : AofRecord) (rest : List AofRecord) :
    clockAfter clock (record :: rest) = clockAfter record.timestampMs rest := by
  unfold clockAfter
  cases rest with
  | nil => rfl
  | cons next others =>
      rw [List.getLast?_cons_cons, List.getLast?_eq_some_getLast (List.cons_ne_nil next others)]
      rfl

/-- A record among those that are drawn. -/
theorem Drawn.version {clock : Nat} {earlier later : List AofRecord} {record : AofRecord}
    (drawn : Drawn config now node clock (earlier ++ record :: later)) :
    record.nodeId = config.nodeId ∧
      record.timestampMs =
        Hlc.next (clockAfter clock earlier) now (node.replaces now record) ∧
      clock ≤ clockAfter clock earlier ∧
      ∀ other ∈ earlier, other.timestampMs ≤ clockAfter clock earlier := by
  induction earlier generalizing clock with
  | nil => exact ⟨drawn.1, drawn.2.1, le_rfl, fun _ member => absurd member List.not_mem_nil⟩
  | cons first rest induction =>
      rcases drawn with ⟨-, version, others⟩
      rcases induction others with ⟨origin, same, above, each⟩
      have advanced : clock < first.timestampMs := by
        rw [version]
        exact Hlc.last_lt_next _ _ _
      rw [clockAfter_cons]
      refine ⟨origin, same, advanced.le.trans above, ?_⟩
      intro other member
      rcases List.mem_cons.mp member with rfl | behind
      · exact above
      · exact each other behind

/-- What the records overwrite is all that matters of the node. -/
theorem Drawn.congr {other : Node} {clock : Nat} {records : List AofRecord}
    (same : ∀ record ∈ records, other.replaces now record = node.replaces now record)
    (drawn : Drawn config now node clock records) : Drawn config now other clock records := by
  induction records generalizing clock with
  | nil => trivial
  | cons record rest induction =>
      rcases drawn with ⟨origin, version, others⟩
      refine ⟨origin, ?_, induction (fun later member => same later (List.mem_cons_of_mem _ member))
        others⟩
      rw [same record List.mem_cons_self]
      exact version

theorem touch_touch_held (node : Node) (now : Nat) (first place : Place) :
    ((node.touch now first).touch now place).held place = (node.touch now place).held place := by
  simp only [touch, hold_held, if_true]
  by_cases same : place = first
  · rw [if_pos same]
    rw [same, Option.filter_filter]
    simp only [Bool.and_self]
  · rw [if_neg same]

theorem overwritten_touch (node : Node) (now : Nat) (first place : Place) :
    ((node.touch now first).touch now place).overwritten place =
      (node.touch now place).overwritten place := by
  rw [overwritten, overwritten, touch_touch_held]
  rfl

theorem replaces_touch (node : Node) (now : Nat) (place : Place) (record : AofRecord) :
    (node.touch now place).replaces now record = node.replaces now record := by
  unfold replaces
  congr 1
  apply List.map_congr_left
  intro change _
  exact overwritten_touch node now place change.place

theorem replaces_of_single {record : AofRecord} {change : Change}
    (single : record.changes = [change]) :
    node.replaces now record = (node.touch now change.place).overwritten change.place := by
  rw [replaces, single]
  exact Nat.max_zero _

/-! ## The commands on the plain store -/

/-- A command leaves the log with records that it has drawn. -/
def Draws (config : Config) (now : Nat) (node after : Node) : Prop :=
  ∃ records, after.log = node.log ++ records ∧ Drawn config now node node.clock records

theorem draws_nothing (same : after.log = node.log) : Draws config now node after :=
  ⟨[], by rw [same, List.append_nil], trivial⟩

/-- One record is committed, of places that have been read. -/
theorem draws_commit {read : Node} {record : AofRecord} (log : read.log = node.log)
    (origin : record.nodeId = config.nodeId)
    (version : record.timestampMs = Hlc.next node.clock now (node.replaces now record)) :
    Draws config now node (read.commit config record) :=
  ⟨[record], by rw [← log]; rfl, origin, version, trivial⟩

variable {name : Bytes}

theorem draws_plainSet {args : List Bytes} (head : args.head?.map upper = some (ascii "SET"))
    (resp3 : Bool) : Draws config now node (node.plainSet config now resp3 name args).1 := by
  match args with
  | [] => exact draws_nothing rfl
  | [_] => exact draws_nothing rfl
  | [_, _] => exact draws_nothing rfl
  | first :: key :: value :: options =>
      have command : upper first = ascii "SET" := Option.some.inj head
      unfold plainSet
      dsimp only
      cases Db.setOptions now {} options with
      | error err => exact draws_nothing rfl
      | ok parsed =>
          dsimp only
          by_cases refused : (parsed.nx && ((touch now node (name, key)).held (name, key)).isSome ||
              parsed.xx && ((touch now node (name, key)).held (name, key)).isNone) = true
          · rw [if_pos refused]
            exact draws_nothing rfl
          · rw [if_neg refused]
            refine draws_commit rfl rfl ?_
            rw [replaces_of_single (Db.changes_set rfl command)]
            rfl

/-- The first loop of `MSET` finds the greatest timestamp, whatever has been read before. -/
theorem plainOverwritten_greatest (node : Node) (now greatest : Nat) (name : Bytes)
    (pairs : List (Bytes × Bytes)) :
    (node.plainOverwritten now name greatest pairs).2 = max greatest
      ((pairs.map fun pair => (node.touch now (name, pair.1)).overwritten (name, pair.1)).foldr
        max 0) := by
  induction pairs generalizing node greatest with
  | nil => exact (Nat.max_zero greatest).symm
  | cons pair rest induction =>
      rcases pair with ⟨key, value⟩
      have same : (rest.map fun pair =>
          ((node.touch now (name, key)).touch now (name, pair.1)).overwritten (name, pair.1)) =
          rest.map fun pair => (node.touch now (name, pair.1)).overwritten (name, pair.1) :=
        List.map_congr_left fun pair _ => overwritten_touch node now (name, key) (name, pair.1)
      unfold plainOverwritten
      dsimp only
      rw [induction, same, List.map_cons, List.foldr_cons, max_assoc]

theorem draws_plainMset {args : List Bytes} (head : args.head?.map upper = some (ascii "MSET")) :
    Draws config now node (node.plainMset config now name args).1 := by
  match args with
  | [] => exact draws_nothing rfl
  | first :: rest =>
      have command : upper first = ascii "MSET" := Option.some.inj head
      unfold plainMset
      by_cases malformed : (first :: rest).length < 3 ∨ (first :: rest).length % 2 = 0
      · rw [if_pos malformed]
        exact draws_nothing rfl
      · rw [if_neg malformed]
        have touched := Db.plainOverwritten_touchAll node now 0 name (Db.pairsOf rest)
        have bound := plainOverwritten_greatest node now 0 name (Db.pairsOf rest)
        dsimp only [List.tail_cons]
        generalize node.plainOverwritten now name 0 (Db.pairsOf rest) = looped at touched bound ⊢
        rcases looped with ⟨read, greatest⟩
        dsimp only at touched bound ⊢
        rw [Nat.zero_max] at bound
        rcases touchAll_fields now node ((Db.pairsOf rest).map fun pair => (name, pair.1)) with
          ⟨held, same⟩
        rw [← touched] at same
        have changes : ∀ version, (Db.msetRecord name (first :: rest) version config.nodeId).changes =
            Db.msetChanges name version config.nodeId (Db.pairsOf rest) :=
          fun version => Db.changes_mset rfl command rfl
        refine draws_commit (by rw [same]) rfl ?_
        rw [replaces, changes, Db.msetChanges, List.map_map]
        change Hlc.next read.clock now greatest = Hlc.next node.clock now
          (((Db.pairsOf rest).map fun pair =>
            (node.touch now (name, pair.1)).overwritten (name, pair.1)).foldr max 0)
        rw [← bound, same]

/-- A key that is there is deleted under a version above its record. -/
theorem replaces_delRecord {key : Bytes} {record : Record} (version : Version)
    (found : (node.touch now (name, key)).held (name, key) = some record) :
    node.replaces now (delRecord name key version) = record.timestampMs := by
  rw [replaces_of_single (Db.changes_del rfl)]
  change (node.touch now (name, key)).overwritten (name, key) = _
  rw [overwritten, found]
  rfl

/-- After a key has been deleted every other place is as it was. -/
theorem commit_delRecord (config : Config) (name : Bytes) (node : Node) (key : Bytes)
    (version : Version) (place : Place) :
    (node.commit config (delRecord name key version)).held place =
        (if place = (name, key) then none else node.held place) ∧
      (place ≠ (name, key) →
        (node.commit config (delRecord name key version)).tomb place = node.tomb place) := by
  have changes : (delRecord name key version).changes = [.del (name, key) version] :=
    Db.changes_del rfl
  have committed : ∃ clock log, node.commit config (delRecord name key version) =
      { (node.hold (name, key) none).mark config (name, key) version with clock, log } := by
    unfold commit
    rw [changes]
    exact ⟨_, _, rfl⟩
  rcases committed with ⟨clock, log, same⟩
  rw [same]
  constructor
  · exact hold_held node (name, key) none place
  · intro other
    change ((node.hold (name, key) none).mark config (name, key) version).tomb place = _
    rw [mark, bury_tomb, if_neg other]
    rfl

theorem draws_plainDelLoop (config : Config) (now : Nat) (name : Bytes) (node : Node)
    (deleted : Nat) (keys : List Bytes) :
    ∃ records, (node.plainDelLoop config now name deleted keys).1.log = node.log ++ records ∧
      Drawn config now node node.clock records ∧
      ∀ record ∈ records, ∃ key version, record = delRecord name key version ∧
        ((node.touch now (name, key)).held (name, key)).isSome := by
  induction keys generalizing node deleted with
  | nil => exact ⟨[], (List.append_nil _).symm, trivial, by simp⟩
  | cons key rest induction =>
      unfold plainDelLoop
      dsimp only
      cases found : (node.touch now (name, key)).held (name, key) with
      | none =>
          rcases induction (node.touch now (name, key)) deleted with ⟨records, log, drawn, each⟩
          refine ⟨records, log,
            drawn.congr fun record _ => (replaces_touch node now _ record).symm, ?_⟩
          intro record member
          rcases each record member with ⟨other, version, same, present⟩
          rw [touch_touch_held] at present
          exact ⟨other, version, same, present⟩
      | some record =>
          dsimp only
          generalize versionEq : (⟨Hlc.next (node.touch now (name, key)).clock now
            record.timestampMs, config.nodeId⟩ : Version) = version
          have commits := commit_delRecord config name (node.touch now (name, key)) key version
          have clock : ((node.touch now (name, key)).commit config
              (delRecord name key version)).clock = version.ts := by
            refine max_eq_right (Nat.le_of_lt ?_)
            rw [← versionEq]
            exact Hlc.last_lt_next _ _ _
          have grown : ((node.touch now (name, key)).commit config
              (delRecord name key version)).log = node.log ++ [delRecord name key version] := rfl
          generalize (node.touch now (name, key)).commit config (delRecord name key version) =
            mid at commits clock grown ⊢
          rcases induction mid (deleted + 1) with ⟨records, log, drawn, each⟩
          -- the keys deleted later are others
          have apart : ∀ other, ((mid.touch now (name, other)).held (name, other)).isSome →
              other ≠ key := by
            rintro other present rfl
            rw [touch, hold_held, if_pos rfl, (commits _).1, if_pos rfl] at present
            cases present
          have same : ∀ other, other ≠ key → (mid.touch now (name, other)).held (name, other) =
              (node.touch now (name, other)).held (name, other) := by
            intro other different
            have places : (name, other) ≠ (name, key) :=
              fun equal => different (Prod.ext_iff.mp equal).2
            simp only [touch, hold_held, (commits (name, other)).1, if_neg places, if_true]
          refine ⟨delRecord name key version :: records, by rw [log, grown, List.append_assoc]; rfl,
            ⟨?_, ?_, ?_⟩, ?_⟩
          · rw [← versionEq]
            rfl
          · rw [replaces_delRecord version found, ← versionEq]
            rfl
          · rw [clock] at drawn
            refine drawn.congr ?_
            intro later member
            rcases each later member with ⟨other, otherVersion, rfl, present⟩
            rcases Option.isSome_iff_exists.mp present with ⟨held, found⟩
            rw [replaces_delRecord otherVersion found]
            rw [same other (apart other present)] at found
            rw [replaces_delRecord otherVersion found]
          · intro later member
            rcases List.mem_cons.mp member with rfl | behind
            · exact ⟨key, version, rfl, by rw [found]; rfl⟩
            · rcases each later behind with ⟨other, otherVersion, rfl, present⟩
              refine ⟨other, otherVersion, rfl, ?_⟩
              rw [← same other (apart other present)]
              exact present

theorem draws_plainDel (args : List Bytes) :
    Draws config now node (node.plainDel config now name args).1 := by
  match args with
  | [] => exact draws_nothing rfl
  | [_] => exact draws_nothing rfl
  | _ :: key :: rest =>
      rcases draws_plainDelLoop config now name node 0 (key :: rest) with ⟨records, log, drawn, -⟩
      exact ⟨records, log, drawn⟩

theorem draws_touch {place : Place} (draws : Draws config now (node.touch now place) after) :
    Draws config now node after := by
  rcases draws with ⟨records, log, drawn⟩
  exact ⟨records, log, drawn.congr fun record _ => (replaces_touch node now place record).symm⟩

theorem draws_plainDeadline (key : Bytes) (options : Db.ExpireOptions)
    (scale amount expireAt : Int) : Draws config now node
      (node.plainDeadline config now name key options scale amount expireAt).1 := by
  unfold plainDeadline
  dsimp only
  cases found : (node.touch now (name, key)).held (name, key) with
  | none => exact draws_nothing rfl
  | some record =>
      dsimp only
      by_cases refused : scale = 0 ∧ record.expireAt = 0 ∨
          Db.expireRefused options record expireAt = true
      · rw [if_pos refused]
        exact draws_nothing rfl
      · rw [if_neg refused]
        by_cases spent : scale ≠ 0 ∧ amount ≤ 0
        · rw [if_pos spent]
          exact draws_touch (draws_plainDel _)
        · rw [if_neg spent]
          refine draws_commit rfl rfl ?_
          have set : upper (ascii "SET") = ascii "SET" := by decide
          rw [replaces_of_single (Db.changes_set rfl set)]
          change Hlc.next node.clock now record.timestampMs = Hlc.next node.clock now
            ((node.touch now (name, key)).overwritten (name, key))
          rw [overwritten, found]
          rfl

theorem draws_plainExpire (args : List Bytes) (scale : Int) :
    Draws config now node (node.plainExpire config now name args scale).1 := by
  unfold plainExpire
  by_cases shape : (if scale ≠ 0 then args.length < 3 else args.length ≠ 2)
  · rw [if_pos shape]
    exact draws_nothing rfl
  rw [if_neg shape]
  cases Db.expireOptions {} (args.drop 3) with
  | error err => exact draws_nothing rfl
  | ok options =>
      dsimp only
      by_cases clash : (options.nx && (options.xx || options.gt || options.lt)) = true
      · rw [if_pos clash]
        exact draws_nothing rfl
      · rw [if_neg clash]
        by_cases both : (options.gt && options.lt) = true
        · rw [if_pos both]
          exact draws_nothing rfl
        · rw [if_neg both]
          cases Db.expireDeadline now scale args with
          | error err => exact draws_nothing rfl
          | ok pair =>
              rcases pair with ⟨amount, expireAt⟩
              exact draws_plainDeadline _ options scale amount expireAt

theorem log_plainMgetLoop (node : Node) (resp3 : Bool) (out : Bytes) (keys : List Bytes) :
    (node.plainMgetLoop now resp3 name out keys).1.log = node.log := by
  induction keys generalizing node out with
  | nil => rfl
  | cons key rest induction =>
      unfold plainMgetLoop
      dsimp only
      cases (node.touch now (name, key)).held (name, key) with
      | none => exact induction _ _
      | some record =>
          dsimp only
          by_cases long : Db.maxReply < out.length + record.value.length
          · rw [if_pos long]
            rfl
          · rw [if_neg long]
            exact induction _ _

theorem log_plainExistsLoop (node : Node) (count : Nat) (keys : List Bytes) :
    (node.plainExistsLoop now name count keys).1.log = node.log := by
  induction keys generalizing node count with
  | nil => rfl
  | cons key rest induction => exact induction _ _

theorem log_plainTtl (args : List Bytes) (millis : Bool) :
    (node.plainTtl now name args millis).1.log = node.log := by
  unfold plainTtl
  match args with
  | [head, key] =>
      dsimp only
      cases (touch now node (name, key)).held (name, key) with
      | none => rfl
      | some record =>
          dsimp only
          by_cases same : record.expireAt = 0
          · rw [if_pos same]
            rfl
          · rw [if_neg same]
            rfl
  | [] | [_] | _ :: _ :: _ :: _ => rfl

/-- Every command but the replicated ones draws the versions of what it logs. -/
theorem draws_plain (resp3 : Bool) {args : List Bytes} {first : Bytes}
    (head : args.head? = some first) {kind : RoomCommand}
    (named : Command.named (upper first) = .inRoom kind)
    (own : ¬(kind = .crdtmerge ∨ kind = .crdtdel)) :
    Draws config now node (node.plain config now resp3 name args kind).1 := by
  have spelled : ∀ {command : Bytes}, upper first = command →
      args.head?.map upper = some command := by
    rintro command rfl
    rw [head, Option.map_some]
  cases kind with
  | get =>
      refine draws_nothing ?_
      unfold plain plainGet
      dsimp only
      match args with
      | [_, _] => rfl
      | [] | [_] | _ :: _ :: _ :: _ => rfl
  | set => exact draws_plainSet (spelled (Db.named_set named)) resp3
  | del => exact draws_plainDel args
  | crdtmerge => exact absurd (.inl rfl) own
  | crdtdel => exact absurd (.inr rfl) own
  | mget =>
      refine draws_nothing ?_
      unfold plain plainMget
      dsimp only
      match args with
      | _ :: _ :: _ => exact log_plainMgetLoop _ _ _ _
      | [] | [_] => rfl
  | mset => exact draws_plainMset (spelled (Db.named_mset named))
  | exist =>
      refine draws_nothing ?_
      unfold plain plainExists
      dsimp only
      match args with
      | _ :: _ :: _ => exact log_plainExistsLoop _ _ _
      | [] | [_] => rfl
  | expire => exact draws_plainExpire args 1000
  | pexpire => exact draws_plainExpire args 1
  | persist => exact draws_plainExpire args 0
  | ttl => exact draws_nothing (log_plainTtl args false)
  | pttl => exact draws_nothing (log_plainTtl args true)
  | save => exact draws_nothing rfl
  | unknown => exact draws_nothing rfl

end Node

namespace Db

variable {config : Config} {db : Db} {call : Call}

/-- A version that a replicated command brings is admitted: it reaches the handler, and
`incoming_version` accepts it. -/
structure Welcomes (db : Db) (call : Call) (version : Version) : Prop where
  brings : ∃ key, incoming call.args = some (key, version)
  near : db.Near call.now version
  listening : call.subscribed = false
  opens : (db.beginCommand call).Opens (db.clientRoom call.clientFd)

/-- What a command that is not a replicated one logs has versions drawn from the clock. -/
theorem drawn_appended (sane : Sane config db) (domestic : Domestic call) :
    Node.Drawn config call.now db.node db.clock (db.appended call) := by
  cases args : call.args with
  | nil =>
      rw [appended, args]
      trivial
  | cons first rest =>
      have head : call.args.head? = some first := by
        rw [args]
        rfl
      have begun := sane.begun call
      have executed : db.execute call = (db.beginCommand call).dispatch call (upper first) := by
        unfold execute
        rw [args]
      have form : ((db.beginCommand call).setClientRoom call.clientFd
          ((db.beginCommand call).clientRoom call.clientFd)).WellFormed :=
        ⟨begun.wellFormed.exclusive, begun.wellFormed.asleep⟩
      have quiet : (db.execute call).1.aof = (db.beginCommand call).aof →
          Node.Drawn config call.now db.node db.clock (db.appended call) := by
        intro same
        rw [appended_nil head same]
        trivial
      cases named : Command.named (upper first) with
      | elsewhere =>
          apply quiet
          rw [executed, dispatch, named]
          rfl
      | connection kind =>
          apply quiet
          have same := aof_runConnection form call (upper first) kind
          rw [executed, dispatch, named]
          cases kind <;> first | exact same | (dsimp only; split; rfl; exact same)
      | inRoom kind =>
          cases listening : call.subscribed with
          | true =>
              apply quiet
              rw [executed, dispatch, named]
              simp only [listening, if_true]
              rfl
          | false =>
              rcases execute_inRoom sane head named listening with
                ⟨_, _, node⟩ | ⟨_, awake, entered, _, node⟩
              · exact quiet (congrArg Node.log node)
              · have own : ¬(kind = .crdtmerge ∨ kind = .crdtdel) := by
                  rintro (rfl | rfl)
                  · exact (domestic first head).1 (named_crdtmerge named)
                  · exact (domestic first head).2 (named_crdtdel named)
                rcases node_beginCommand sane call with ⟨log, started⟩
                have means := means_runInRoom entered.wellFormed entered.awake call.now call.resp3
                  head named
                have draws : Node.Draws awake.config call.now awake.node
                    (awake.node.plain awake.config call.now call.resp3
                      (db.clientRoom call.clientFd) call.args kind).1 :=
                  Node.draws_plain call.resp3 head named own
                rcases draws with ⟨records, grown, drawn⟩
                rw [← means.acts.node, ← node] at grown
                rw [entered.node] at grown
                rw [appended_of_log head records grown]
                rw [entered.node, started, entered.config, sane.config] at drawn
                have same : ∀ record ∈ records, db.node.replaces call.now record =
                    ({ db.node with log } : Node).replaces call.now record :=
                  fun record _ => rfl
                exact drawn.congr same

end Db

end SomniumDB
