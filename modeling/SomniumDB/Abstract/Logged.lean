import SomniumDB.Abstract.Clients
import SomniumDB.Storage.AofCodec

/-! # What the handlers append

The records that a command appends are made of its own arguments, and of the
value or the deadline of a record that the node already has. -/

namespace SomniumDB

open Bytes FsUtil Resp

/-- A record within the limits of the parser. -/
def Record.Small (record : Record) : Prop :=
  record.value.length ≤ kMaxBulk ∧ 0 ≤ record.expireAt ∧ record.expireAt ≤ llongMax

/-- The arguments are those of an `MSET`. -/
def IsMset (args : List Bytes) : Prop :=
  args.head?.map upper = some (ascii "MSET")

/-- A record that a command with the arguments `args` appends in the room
`name`. -/
structure Logged (name : Bytes) (args : List Bytes) (record : AofRecord) : Prop where
  room : record.room = name
  strings : ∀ arg ∈ record.args, arg.length ≤ kMaxBulk
  deadline : 0 ≤ record.expireAt ∧ record.expireAt ≤ llongMax
  node : record.nodeId ≤ uint32Max
  /-- An `MSET` is logged as it was requested; every other record is short. -/
  count : (IsMset args ∧ record.args = args) ∨ (¬ IsMset args ∧ record.args.length ≤ 6)

namespace Db

/-- Whatever the log of `after` has beyond that of `db` is appended by the
command. -/
def Logs (name : Bytes) (args : List Bytes) (db after : Db) : Prop :=
  ∃ new, after.aof = db.aof ++ new ∧ ∀ record ∈ new, Logged name args record

section Quiet

variable (db : Db) (now : Nat) (name key : Bytes)

@[simp] theorem aof_erase : (db.erase name key).aof = db.aof := by
  unfold erase
  cases (db.keysOf name).lookup key with
  | none => rfl
  | some _ => rfl

@[simp] theorem aof_lookup : (db.lookup now name key).1.aof = db.aof := by
  unfold lookup
  cases (db.keysOf name).lookup key with
  | none =>
      cases db.cold.find name key with
      | none => rfl
      | some record =>
          dsimp only
          by_cases late : record.expired now = true
          · rw [if_pos late]
          · rw [if_neg late]
            rfl
  | some record =>
      dsimp only
      by_cases expired : record.expired now = true
      · rw [if_pos expired]
        exact aof_erase db name key
      · rw [if_neg expired]

@[simp] theorem aof_setTomb (version : Version) :
    (db.setTomb name key version).aof = db.aof := by
  rcases setTomb_eq db name key version with ⟨tombstones, metrics, equal⟩
  rw [equal]

@[simp] theorem aof_recordFor (record : Option Record) :
    (db.recordFor name key record).1.aof = db.aof := by
  cases record with
  | some found => rfl
  | none =>
      rcases clearTomb_eq (db.insert name key) name key with ⟨tombstones, metrics, equal⟩
      unfold recordFor
      dsimp only
      rw [equal]
      rfl

@[simp] theorem aof_writeKey (value : Bytes) (expireAt : Int) (version : Nat)
    (record : Option Record) :
    (db.writeKey name key value expireAt version record).aof = db.aof :=
  aof_recordFor db name key record

theorem aof_overwritten (greatest : Nat) (pairs : List (Bytes × Bytes)) :
    (db.overwritten now name greatest pairs).1.aof = db.aof := by
  induction pairs generalizing db greatest with
  | nil => rfl
  | cons pair rest induction => exact (induction _ _).trans (aof_lookup db now name pair.1)

theorem aof_writePairs (version : Nat) (pairs : List (Bytes × Bytes)) :
    (db.writePairs now name version pairs).aof = db.aof := by
  induction pairs generalizing db with
  | nil => rfl
  | cons pair rest induction =>
      refine (induction _).trans ((aof_writeKey _ name pair.1 pair.2 0 version _).trans ?_)
      exact aof_lookup db now name pair.1

theorem aof_mgetLoop (resp3 : Bool) (out : Bytes) (keys : List Bytes) :
    (db.mgetLoop now resp3 name out keys).1.aof = db.aof := by
  induction keys generalizing db out with
  | nil => rfl
  | cons key rest induction =>
      have read := aof_lookup db now name key
      unfold mgetLoop Keyspace.mgetLoop
      simp only [Keyspace.ofDb]
      rcases equal : db.lookup now name key with ⟨found, _ | record⟩
      · rw [equal] at read
        exact (induction _ _).trans read
      · dsimp only
        rw [equal] at read
        by_cases long : maxReply < out.length + record.value.length
        · rw [if_pos long]
          exact read
        · rw [if_neg long]
          exact (induction _ _).trans read

theorem aof_existsLoop (count : Nat) (keys : List Bytes) :
    (db.existsLoop now name count keys).1.aof = db.aof := by
  induction keys generalizing db count with
  | nil => rfl
  | cons key rest induction => exact (induction _ _).trans (aof_lookup db now name key)

theorem aof_handleTtl (args : List Bytes) (millis : Bool) :
    (db.handleTtl now name args millis).1.aof = db.aof := by
  unfold handleTtl Keyspace.handleTtl
  simp only [Keyspace.ofDb]
  match args with
  | [head, key] =>
      dsimp only
      have read := aof_lookup db now name key
      rcases equal : db.lookup now name key with ⟨found, _ | record⟩
      · rw [equal] at read
        exact read
      · dsimp only
        rw [equal] at read
        by_cases same : record.expireAt = 0
        · rw [if_pos same]
          exact read
        · rw [if_neg same]
          exact read
  | [] | [_] | _ :: _ :: _ :: _ => rfl

theorem aof_collectTombstones : db.collectTombstones.aof = db.aof := by
  rcases collectTombstones_spec db with same | ⟨_, _, _, _, equal, _⟩
  · rw [same]
  · rw [equal]

theorem aof_evictDespisedKeys (victims : List Bytes) :
    (db.evictDespisedKeys name victims).aof = db.aof := by
  induction victims generalizing db with
  | nil => rfl
  | cons victim rest induction =>
      unfold evictDespisedKeys
      dsimp only
      by_cases within : (db.keysOf name).entries = [] ∨
          (db.keysOf name).toPairs.length ≤ db.config.maxKeys ∧ db.fits 0 = true
      · rw [if_pos within]
      · rw [if_neg within]
        cases (db.keysOf name).lookup victim with
        | none => exact induction db
        | some _ => exact induction _

end Quiet

variable {db after : Db} {name : Bytes} {args : List Bytes} {now : Nat}

theorem Logs.of_eq (same : after.aof = db.aof) : Logs name args db after :=
  ⟨[], by rw [same, List.append_nil], by simp⟩

theorem Logs.trans {second third : Db} (left : Logs name args db second)
    (right : Logs name args second third) : Logs name args db third := by
  rcases left with ⟨first, firstEq, firstLogged⟩
  rcases right with ⟨later, laterEq, laterLogged⟩
  refine ⟨first ++ later, by rw [laterEq, firstEq, List.append_assoc], ?_⟩
  intro record member
  rcases List.mem_append.mp member with inFirst | inLater
  · exact firstLogged record inFirst
  · exact laterLogged record inLater

theorem Logs.append {record : AofRecord} (same : after.aof = db.aof)
    (logged : Logged name args record) : Logs name args db (after.append record) := by
  refine ⟨[record], by rw [← same]; rfl, ?_⟩
  intro other member
  rw [List.mem_singleton.mp member]
  exact logged

theorem Logs.mem (logs : Logs name args db after) {record : AofRecord}
    (member : record ∈ after.aof) : record ∈ db.aof ∨ Logged name args record := by
  rcases logs with ⟨new, equal, logged⟩
  rw [equal] at member
  exact (List.mem_append.mp member).imp id (logged record)

/-- The records of a node are small. -/
def HoldsSmall (db : Db) : Prop :=
  ∀ place record, db.held place = some record → record.Small

/-- A record that a command has read. -/
theorem small_lookup (wellFormed : db.WellFormed) (awake : db.Awake name) (now : Nat)
    (key : Bytes) (small : db.HoldsSmall) {record : Record}
    (found : (db.lookup now name key).2 = some record) : record.Small := by
  rcases lookup_spec wellFormed awake now key with ⟨_, result, _⟩
  rw [result, Node.touch, Node.hold_held, if_pos rfl] at found
  exact small (name, key) record (Option.filter_eq_some_iff.mp found).1

/-! ## SET -/

/-- The bound on the amount keeps the deadline within 64 bits. -/
theorem deadline_fits {scale n : Int} (unit : scale = 1 ∨ scale = 1000) (positive : 0 < n)
    (fits : n ≤ (llongMax - now).tdiv scale) :
    0 < now + n * scale ∧ now + n * scale ≤ llongMax := by
  have scalePositive : 0 < scale := by omega
  by_cases late : llongMax - now < 0
  · have negated : 0 ≤ (-(llongMax - now)).tdiv scale :=
      Int.tdiv_nonneg (by omega) scalePositive.le
    rw [Int.neg_tdiv] at negated
    omega
  · rw [Int.tdiv_eq_ediv_of_nonneg (Int.not_lt.mp late)] at fits
    have scaled := (Int.le_ediv_iff_mul_le scalePositive).mp fits
    have product : 0 < n * scale := Int.mul_pos positive scalePositive
    omega

theorem persistent_fits : (0 : Int) ≤ 0 ∧ (0 : Int) ≤ llongMax := by decide

/-- The option loop reads at most three arguments, and its deadline fits. -/
theorem setOptions_spec {options result : SetOptions} {rest : List Bytes}
    (read : setOptions now options rest = .ok result)
    (deadline : 0 ≤ options.expireAt ∧ options.expireAt ≤ llongMax) :
    rest.length ≤ (if options.nx ∨ options.xx then 0 else 1) +
        (if options.expireAt = 0 then 2 else 0) ∧
      0 ≤ result.expireAt ∧ result.expireAt ≤ llongMax := by
  fun_induction setOptions now options rest with
  | case1 options =>
      cases read
      exact ⟨Nat.zero_le _, deadline⟩
  | case2 options option rest opt first induction =>
      rcases induction read deadline with ⟨length, bounds⟩
      have chosen : opt = ascii "NX" ∨ opt = ascii "XX" := first.1
      have unset : options.nx = false ∧ options.xx = false := by simpa using first.2
      simp only [decide_eq_true_eq, chosen, if_true] at length
      simp only [unset, List.length_cons, Bool.false_eq_true, or_self, if_false]
      exact ⟨by omega, bounds⟩
  | case6 options option opt _ amount others first scale n _ valid induction =>
      have unit : scale = 1 ∨ scale = 1000 := by
        unfold scale
        by_cases isEx : opt = ascii "EX"
        · rw [if_pos isEx]
          simp
        · rw [if_neg isEx]
          simp
      rw [not_or, Int.not_le, Int.not_lt] at valid
      rcases deadline_fits unit valid.1 valid.2 with ⟨positive, high⟩
      rcases induction read ⟨positive.le, high⟩ with ⟨length, bounds⟩
      simp only [positive.ne', if_false] at length
      simp only [first.2, List.length_cons, if_true]
      exact ⟨by omega, bounds⟩
  | _ => cases read

theorem logs_handleSet (within : Within args) (node : db.config.nodeId ≤ uint32Max)
    (other : ¬ IsMset args) (resp3 : Bool) : Logs name args db (db.handleSet now resp3 name args).1 := by
  unfold handleSet Keyspace.handleSet
  simp only [Keyspace.ofDb]
  match args with
  | first :: key :: value :: options =>
      dsimp only
      cases read : setOptions now {} options with
      | error _ => exact Logs.of_eq rfl
      | ok result =>
          rcases setOptions_spec read (by decide) with ⟨length, deadline⟩
          have quiet := aof_lookup db now name key
          generalize db.lookup now name key = looked at quiet
          rcases looked with ⟨found, record⟩
          dsimp only at quiet ⊢
          by_cases refused : (result.nx && record.isSome || result.xx && record.isNone) = true
          · rw [if_pos refused]
            exact Logs.of_eq quiet
          · rw [if_neg refused]
            refine Logs.append ?_ ?_
            · rw [aof_writeKey]
              exact quiet
            refine ⟨rfl, within.2, deadline, node, .inr ⟨other, ?_⟩⟩
            simp only [List.length_cons, Bool.false_eq_true, or_self, if_false, if_true] at length ⊢
            omega
  | [] | [_] | [_, _] => exact Logs.of_eq rfl

/-! ## The other handlers -/

theorem logs_handleMset (within : Within args) (node : db.config.nodeId ≤ uint32Max)
    (command : IsMset args) : Logs name args db (db.handleMset now name args).1 := by
  unfold handleMset Keyspace.handleMset
  simp only [Keyspace.ofDb]
  by_cases malformed : args.length < 3 ∨ args.length % 2 = 0
  · rw [if_pos malformed]
    exact Logs.of_eq rfl
  · rw [if_neg malformed]
    have quiet := aof_overwritten db now name 0 (pairsOf args.tail)
    dsimp only
    refine Logs.append ?_ ⟨rfl, within.2, persistent_fits, node, .inl ⟨command, rfl⟩⟩
    rw [aof_writePairs]
    exact quiet

theorem logged_del {key : Bytes} {ts node : Nat} (other : ¬ IsMset args)
    (small : key.length ≤ kMaxBulk) (bounded : node ≤ uint32Max) :
    Logged name args
      { room := name, args := [ascii "DEL", key], timestampMs := ts, nodeId := node } := by
  refine ⟨rfl, ?_, persistent_fits, bounded, .inr ⟨other, by simp⟩⟩
  intro arg member
  rcases List.mem_cons.mp member with rfl | last
  · decide
  · rw [List.mem_singleton.mp last]
    exact small

theorem logs_delLoop (wellFormed : db.WellFormed) (awake : db.Awake name)
    (node : db.config.nodeId ≤ uint32Max) (other : ¬ IsMset args) (count : Nat) (keys : List Bytes)
    (small : ∀ key ∈ keys, key.length ≤ kMaxBulk) :
    Logs name args db (db.delLoop now name count keys).1 := by
  induction keys generalizing db count with
  | nil => exact Logs.of_eq rfl
  | cons key rest induction =>
      have read := read_lookup wellFormed awake now key
      have quiet := aof_lookup db now name key
      have later : ∀ other ∈ rest, other.length ≤ kMaxBulk :=
        fun other member => small other (List.mem_cons_of_mem _ member)
      unfold delLoop Keyspace.delLoop
      simp only [Keyspace.ofDb]
      rcases equal : db.lookup now name key with ⟨found, _ | record⟩
      · rw [equal] at read quiet
        exact (Logs.of_eq quiet).trans
          (induction read.served.wellFormed read.awake (read.config ▸ node) _ later)
      · rw [equal] at read quiet
        have deleted := serves_delete read
        refine Logs.trans ?_ (induction deleted.wellFormed (deleted.frame.awake awake)
          (by rw [deleted.frame.config]; exact node) _ later)
        apply Logs.append
        · rw [aof_setTomb, aof_erase]
          exact quiet
        · exact logged_del other (small key List.mem_cons_self) node

theorem logs_handleDel (wellFormed : db.WellFormed) (awake : db.Awake name)
    (node : db.config.nodeId ≤ uint32Max) (other : ¬ IsMset args) (request : List Bytes)
    (small : ∀ arg ∈ request, arg.length ≤ kMaxBulk) :
    Logs name args db (db.handleDel now name request).1 := by
  unfold handleDel Keyspace.handleDel
  simp only [Keyspace.ofDb]
  match request with
  | _ :: _ :: _ =>
      exact logs_delLoop wellFormed awake node other _ _
        fun key member => small key (List.mem_cons_of_mem _ member)
  | [] | [_] => exact Logs.of_eq rfl

/-- The deadline of an `EXPIRE` that does not delete. -/
theorem expireDeadline_fits {scale n expireAt : Int}
    (unit : scale = 0 ∨ scale = 1 ∨ scale = 1000)
    (read : expireDeadline now scale args = .ok (n, expireAt)) (kept : ¬ (scale ≠ 0 ∧ n ≤ 0)) :
    0 ≤ expireAt ∧ expireAt ≤ llongMax := by
  unfold expireDeadline at read
  by_cases persists : scale = 0
  · rw [if_pos persists] at read
    cases read
    decide
  · rw [if_neg persists] at read
    cases parsed : parseI64 (args[2]?.getD []) with
    | none =>
        simp only [parsed] at read
        cases read
    | some n =>
        simp only [parsed] at read
        by_cases overflows : n < llongMin.tdiv scale ∨ (llongMax - (now : Int)).tdiv scale < n
        · rw [if_pos overflows] at read
          cases read
        · rw [if_neg overflows] at read
          cases read
          rcases deadline_fits (unit.resolve_left persists)
            (Int.not_le.mp fun nonpositive => kept ⟨persists, nonpositive⟩)
            (Int.not_lt.mp fun beyond => overflows (.inr beyond)) with ⟨positive, high⟩
          exact ⟨positive.le, high⟩

theorem logs_handleExpire (wellFormed : db.WellFormed) (awake : db.Awake name)
    (within : Within args) (node : db.config.nodeId ≤ uint32Max) (small : db.HoldsSmall)
    (other : ¬ IsMset args) {scale : Int} (unit : scale = 0 ∨ scale = 1 ∨ scale = 1000) :
    Logs name args db (db.handleExpire now name args scale).1 := by
  have keySmall : (args[1]?.getD []).length ≤ kMaxBulk := by
    cases found : args[1]? with
    | none => simp
    | some key => exact within.2 key (List.mem_of_getElem? found)
  unfold handleExpire Keyspace.handleExpire
  simp only [Keyspace.ofDb]
  by_cases shape : (if scale ≠ 0 then args.length < 3 else args.length ≠ 2)
  · rw [if_pos shape]
    exact Logs.of_eq rfl
  · rw [if_neg shape]
    cases expireOptions {} (args.drop 3) with
    | error _ => exact Logs.of_eq rfl
    | ok options =>
        dsimp only
        by_cases clash : (options.nx && (options.xx || options.gt || options.lt)) = true
        · rw [if_pos clash]
          exact Logs.of_eq rfl
        · rw [if_neg clash]
          by_cases both : (options.gt && options.lt) = true
          · rw [if_pos both]
            exact Logs.of_eq rfl
          · rw [if_neg both]
            rcases deadline : expireDeadline now scale args with _ | ⟨n, expireAt⟩
            · exact Logs.of_eq rfl
            · generalize args[1]?.getD [] = key at keySmall
              have read := read_lookup wellFormed awake now key
              have quiet := aof_lookup db now name key
              have valueSmall := @small_lookup db name wellFormed awake now key small
              rcases equal : db.lookup now name key with ⟨found, _ | record⟩
              · rw [equal] at quiet
                exact Logs.of_eq quiet
              · rw [equal] at read quiet valueSmall
                by_cases refused : scale = 0 ∧ record.expireAt = 0 ∨
                    expireRefused options record expireAt = true
                · simp only [if_pos refused]
                  exact Logs.of_eq quiet
                · simp only [if_neg refused]
                  by_cases spent : scale ≠ 0 ∧ n ≤ 0
                  · rw [if_pos spent]
                    refine (Logs.of_eq quiet).trans (logs_handleDel read.served.wellFormed
                      read.awake (read.config ▸ node) other _ ?_)
                    intro arg member
                    rcases List.mem_cons.mp member with rfl | last
                    · decide
                    · rw [List.mem_singleton.mp last]
                      exact keySmall
                  · rw [if_neg spent]
                    apply Logs.append quiet
                    refine ⟨rfl, ?_, expireDeadline_fits unit deadline spent, node,
                      .inr ⟨other, by simp⟩⟩
                    intro arg member
                    simp only [List.mem_cons, List.not_mem_nil, or_false] at member
                    rcases member with rfl | rfl | rfl
                    · decide
                    · exact keySmall
                    · exact (valueSmall rfl).1

/-! ## Replicated commands -/

theorem logs_offered {record : AofRecord} {change : Change} {outcome : Db × Bytes}
    (offered : Offered now db name args outcome record change)
    (logged : Logged name args record) : Logs name args db outcome.1 := by
  have same : outcome.1.aof = (db.node.offer db.config now record change).log :=
    congrArg Node.log offered.acts.node
  rcases Node.offer_log db.config now db.node record change with quiet | grown
  · exact Logs.of_eq (same.trans quiet)
  · refine ⟨[record], same.trans grown, ?_⟩
    intro other member
    rw [List.mem_singleton.mp member]
    exact logged

/-- The version of a merge has passed the checks of `incoming_version`. -/
theorem logs_handleCrdtmerge (wellFormed : db.WellFormed) (awake : db.Awake name)
    (within : Within args) (small : db.HoldsSmall) {first : Bytes}
    (head : args.head? = some first) (command : upper first = ascii "CRDTMERGE")
    (other : ¬ IsMset args) :
    Logs name args db (db.handleCrdtmerge now name args).1 := by
  rcases handleCrdtmerge_cases wellFormed awake head command with
    ⟨same, _⟩ | ⟨key, value, tsArg, nodeArg, more, record, shape, offered, stamped, deadline⟩
  · exact Logs.of_eq (congrArg Db.aof same)
  · apply logs_offered offered
    unfold Deadline at deadline
    split at deadline
    · refine ⟨offered.room, offered.args ▸ within.2, ?_, stamped.small, .inr ⟨other, ?_⟩⟩
      · rw [deadline]
        cases found : (db.node.touch now (name, key)).held (name, key) with
        | none => exact persistent_fits
        | some old =>
            rw [Node.touch, Node.hold_held, if_pos rfl] at found
            exact (small (name, key) old (Option.filter_eq_some_iff.mp found).1).2
      · rw [offered.args, shape]
        simp
    · refine ⟨offered.room, offered.args ▸ within.2,
        ⟨deadline.2, parseI64_le deadline.1⟩, stamped.small, .inr ⟨other, ?_⟩⟩
      rw [offered.args, shape]
      simp
    · exact deadline.elim

theorem logs_handleCrdtdel (wellFormed : db.WellFormed) (awake : db.Awake name)
    (within : Within args) {first : Bytes}
    (head : args.head? = some first) (command : upper first = ascii "CRDTDEL")
    (other : ¬ IsMset args) :
    Logs name args db (db.handleCrdtdel now name args).1 := by
  rcases handleCrdtdel_cases wellFormed awake head command with
    ⟨same, _⟩ | ⟨key, tsArg, nodeArg, record, shape, offered, stamped, persistent⟩
  · exact Logs.of_eq (congrArg Db.aof same)
  · apply logs_offered offered
    refine ⟨offered.room, offered.args ▸ within.2, persistent ▸ persistent_fits, stamped.small,
      .inr ⟨other, ?_⟩⟩
    rw [offered.args, shape]
    simp

/-! ## Commands -/

/-- What bounds the records that a command appends. -/
structure Confined (db : Db) (args : List Bytes) : Prop where
  within : Within args
  node : db.config.nodeId ≤ uint32Max
  small : db.HoldsSmall

theorem logs_runInRoom (wellFormed : db.WellFormed) (awake : db.Awake name)
    (confined : Confined db args) (resp3 : Bool) {first : Bytes}
    (head : args.head? = some first) {kind : RoomCommand}
    (named : Command.named (upper first) = .inRoom kind) :
    Logs name args db (db.runInRoom now resp3 name args kind).1 := by
  rcases confined with ⟨within, node, small⟩
  have other : kind ≠ .mset → ¬ IsMset args := by
    intro different mset
    rw [IsMset, head, Option.map_some, Option.some.injEq] at mset
    rw [mset] at named
    cases kind <;> first | exact different rfl | (exact absurd named (by decide))
  cases kind with
  | get =>
      apply Logs.of_eq
      unfold runInRoom Keyspace.runInRoom Keyspace.handleGet
      simp only [Keyspace.ofDb]
      match args with
      | [_, _] => exact aof_lookup db now name _
      | [] | [_] | _ :: _ :: _ :: _ => rfl
  | set => exact logs_handleSet within node (other (by simp)) resp3
  | del => exact logs_handleDel wellFormed awake node (other (by simp)) args within.2
  | crdtmerge =>
      exact logs_handleCrdtmerge wellFormed awake within small head (named_crdtmerge named)
        (other (by simp))
  | crdtdel =>
      exact logs_handleCrdtdel wellFormed awake within head (named_crdtdel named)
        (other (by simp))
  | mget =>
      apply Logs.of_eq
      unfold runInRoom Keyspace.runInRoom Keyspace.handleMget
      simp only [Keyspace.ofDb]
      match args with
      | _ :: _ :: _ => exact aof_mgetLoop _ _ _ _ _ _
      | [] | [_] => rfl
  | mset =>
      apply logs_handleMset within node
      rw [IsMset, head, Option.map_some, named_mset named]
  | exist =>
      apply Logs.of_eq
      unfold runInRoom Keyspace.runInRoom Keyspace.handleExists
      simp only [Keyspace.ofDb]
      match args with
      | _ :: _ :: _ => exact aof_existsLoop _ _ _ _ _
      | [] | [_] => rfl
  | expire =>
      exact logs_handleExpire wellFormed awake within node small (other (by simp))
        (.inr (.inr rfl))
  | pexpire =>
      exact logs_handleExpire wellFormed awake within node small (other (by simp))
        (.inr (.inl rfl))
  | persist =>
      exact logs_handleExpire wellFormed awake within node small (other (by simp)) (.inl rfl)
  | ttl => exact Logs.of_eq (aof_handleTtl db now name args false)
  | pttl => exact Logs.of_eq (aof_handleTtl db now name args true)
  | save => exact Logs.of_eq rfl
  | unknown => exact Logs.of_eq rfl

theorem logs_executeInRoom (wellFormed : db.WellFormed) (call : Call)
    (confined : Confined db call.args) (name : Bytes) {first : Bytes}
    (head : call.args.head? = some first) {kind : RoomCommand}
    (named : Command.named (upper first) = .inRoom kind) :
    Logs name call.args db (db.executeInRoom call name kind).1 := by
  rcases open_spec wellFormed call.now name with ⟨kept, rearranged, woken⟩
  have quiet : ((db.findRoom name).activate call.now name false).1.aof = db.aof := by
    rw [rearranged.fields]
  have sameNode := rearranged.node
  unfold executeInRoom executeInRoomWith
  dsimp only
  rcases equal : (db.findRoom name).activate call.now name false with ⟨awake, _ | _⟩
  · rw [equal] at quiet
    exact Logs.of_eq quiet
  · rw [equal] at kept woken quiet sameNode
    have small : awake.HoldsSmall := by
      intro place record found
      have same := congrArg (fun node => node.held place) sameNode
      exact confined.small place record (same.symm.trans found)
    refine (Logs.of_eq quiet).trans (Logs.trans ?_ (Logs.of_eq
      (aof_evictDespisedKeys _ name call.victims)))
    exact logs_runInRoom kept.wellFormed (woken rfl)
      ⟨confined.within, kept.config ▸ confined.node, small⟩ call.resp3 head named

theorem aof_handleRoomAdmin (wellFormed : db.WellFormed) (now : Nat) (resp3 : Bool)
    (command : Bytes) (args : List Bytes) :
    (db.handleRoomAdmin now resp3 command args).1.aof = db.aof := by
  unfold handleRoomAdmin
  by_cases isRooms : command = ascii "ROOMS"
  · rw [if_pos isRooms]
  · rw [if_neg isRooms]
    match args with
    | [head, name] =>
        dsimp only
        by_cases isWake : command = ascii "ROOM.WAKE"
        · rw [if_pos isWake]
          exact congrArg Node.log (wakeRoom_spec wellFormed now _).2.node
        · rw [if_neg isWake]
          by_cases unknown : name ∉ db.rooms
          · rw [if_pos unknown]
          · rw [if_neg unknown]
            by_cases isHibernate : command = ascii "ROOM.HIBERNATE"
            · rw [if_pos isHibernate]
              by_cases same : name = defaultRoom
              · rw [if_pos same]
              · rw [if_neg same]
                unfold hibernate
                dsimp only
                by_cases asleep : (db.room name).state = .sleeping
                · rw [if_pos asleep]
                · rw [if_neg asleep]
            · rw [if_neg isHibernate]
              by_cases isInfo : command = ascii "ROOM.INFO"
              · rw [if_pos isInfo]
              · rw [if_neg isInfo]
    | [] | [_] | _ :: _ :: _ :: _ => rfl

theorem aof_handleReplfrontier (db : Db) (now : Nat) (args : List Bytes) :
    (db.handleReplfrontier now args).1.aof = db.aof := by
  unfold handleReplfrontier
  dsimp only
  match args with
  | [head, nodeArg, frontierArg] =>
      dsimp only
      split
      · split
        · rfl
        · rw [aof_collectTombstones]
      · rfl
  | [] | [_] | [_, _] | _ :: _ :: _ :: _ :: _ => rfl

theorem aof_runConnection (wellFormed : db.WellFormed) (call : Call) (name : Bytes)
    (kind : ConnectionCommand) : (db.runConnection call name kind).1.aof = db.aof := by
  cases kind with
  | ping => rfl
  | echo => rfl
  | command => rfl
  | room =>
      simp only [runConnection, handleRoom]
      split
      · rename_i _ name _
        have quiet := congrArg Node.log (wakeRoom_spec wellFormed call.now name).2.node
        split <;> rename_i equal <;> rw [equal] at quiet <;> exact quiet
      · rfl
  | rooms => exact aof_handleRoomAdmin wellFormed _ _ _ _
  | replfrontier => exact aof_handleReplfrontier db _ _
  | rewriteaof =>
      simp only [runConnection, startBackgroundRewrite]
      cases db.rewriteChild with
      | none => rfl
      | some _ => rfl
  | compact => rfl

/-- A command appends nothing, or records of its client's room. -/
theorem logs_dispatch (wellFormed : db.WellFormed) (call : Call)
    (confined : Confined db call.args) {first : Bytes} (head : call.args.head? = some first) :
    Logs (db.clientRoom call.clientFd) call.args db (db.dispatch call (upper first)).1 := by
  have form : (db.setClientRoom call.clientFd
      (db.clientRoom call.clientFd)).WellFormed := ⟨wellFormed.exclusive, wellFormed.asleep⟩
  unfold dispatch
  dsimp only
  split
  · exact Logs.of_eq rfl
  · exact Logs.of_eq (aof_runConnection form call _ _)
  · by_cases subscribed : call.subscribed = true
    · rw [if_pos subscribed]
      exact Logs.of_eq rfl
    · rw [if_neg subscribed]
      exact Logs.of_eq (aof_runConnection form call _ _)
  · rename_i kind named
    by_cases subscribed : call.subscribed = true
    · rw [if_pos subscribed]
      exact Logs.of_eq rfl
    · rw [if_neg subscribed]
      exact logs_executeInRoom form call ⟨confined.within, confined.node, confined.small⟩ _ head
        named

end Db

end SomniumDB
