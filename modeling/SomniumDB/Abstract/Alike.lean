import SomniumDB.Abstract.Plain

/-! # Contents that cannot be told apart

Two contents that differ only in records that have expired, which one of them has
dropped and the other still keeps: every command gives the same reply on both and logs
the same records, as long as the clock does not go back behind the deadline. -/

namespace SomniumDB

open Bytes

namespace Node

/-- The contents are the same but for records that have expired by `floor`. -/
structure Alike (floor : Nat) (left right : Node) : Prop where
  held : ∀ place, unexpired floor (left.held place) = unexpired floor (right.held place)
  tomb : left.tomb = right.tomb
  watermark : left.watermark = right.watermark
  frontier : left.frontier = right.frontier
  clock : left.clock = right.clock
  log : left.log = right.log

/-- The contents are alike and agree in full on one place. -/
structure AlikeAt (floor : Nat) (place : Place) (left right : Node) : Prop
    extends Alike floor left right where
  here : left.held place = right.held place

/-- Two outcomes of a command that no client can tell apart. -/
structure AlikeReply (floor : Nat) (left right : Node × Bytes) : Prop where
  alike : Alike floor left.1 right.1
  reply : left.2 = right.2

section Alike

variable {floor now : Nat} {left right : Node} {place : Place}

theorem Alike.refl (node : Node) : Alike floor node node :=
  ⟨fun _ => rfl, rfl, rfl, rfl, rfl, rfl⟩

theorem Alike.symm (alike : Alike floor left right) : Alike floor right left :=
  ⟨fun place => (alike.held place).symm, alike.tomb.symm, alike.watermark.symm,
    alike.frontier.symm, alike.clock.symm, alike.log.symm⟩

theorem Alike.trans {third : Node} (first : Alike floor left right)
    (second : Alike floor right third) : Alike floor left third :=
  ⟨fun place => (first.held place).trans (second.held place), first.tomb.trans second.tomb,
    first.watermark.trans second.watermark, first.frontier.trans second.frontier,
    first.clock.trans second.clock, first.log.trans second.log⟩

theorem Alike.later (alike : Alike floor left right) {later : Nat} (le : floor ≤ later) :
    Alike later left right :=
  { alike with
    held := fun place => by
      rw [← unexpired_later le, alike.held, unexpired_later le] }

/-- Contents that are alike look the same to a reader. -/
theorem Alike.visibleAt (alike : Alike floor left right) (later : floor ≤ now) (place : Place) :
    unexpired now (left.held place) = unexpired now (right.held place) :=
  (alike.later later).held place

theorem Alike.hold (alike : Alike floor left right) (place : Place) (record : Option Record) :
    AlikeAt floor place (left.hold place record) (right.hold place record) where
  held other := by
    rw [hold_held, hold_held]
    by_cases same : other = place
    · simp only [if_pos same]
    · simp only [if_neg same]
      exact alike.held other
  tomb := alike.tomb
  watermark := alike.watermark
  frontier := alike.frontier
  clock := alike.clock
  log := alike.log
  here := by
    rw [hold_held, hold_held, if_pos rfl, if_pos rfl]

/-- A place that has been read is the same in both. -/
theorem Alike.touch (alike : Alike floor left right) (later : floor ≤ now) (place : Place) :
    AlikeAt floor place (left.touch now place) (right.touch now place) := by
  have same : (left.held place).filter (fun record => !record.expired now) =
      (right.held place).filter fun record => !record.expired now :=
    alike.visibleAt later place
  unfold Node.touch
  rw [same]
  exact alike.hold place _

theorem Alike.observe (alike : Alike floor left right) (ts : Nat) :
    Alike floor (left.observe ts) (right.observe ts) :=
  { alike with clock := congrArg (max · ts) alike.clock }

theorem Alike.bury (alike : Alike floor left right) (place : Place) (version : Option Version) :
    Alike floor (left.bury place version) (right.bury place version) :=
  { alike with
    tomb := by
      unfold Node.bury
      rw [alike.tomb] }

theorem AlikeAt.overwritten (alike : AlikeAt floor place left right) :
    left.overwritten place = right.overwritten place := by
  unfold Node.overwritten
  rw [alike.here, alike.tomb]

theorem AlikeAt.stale (alike : AlikeAt floor place left right) (version : Version) :
    left.stale place version = right.stale place version := by
  unfold Node.stale
  rw [alike.here, alike.tomb, alike.watermark]

theorem Alike.apply (config : Config) (change : Change) (alike : Alike floor left right)
    (here : left.held change.place = right.held change.place) :
    Alike floor (left.apply config change) (right.apply config change) := by
  cases change with
  | put place record =>
      have here : left.held place = right.held place := here
      unfold Node.apply
      dsimp only
      rw [here]
      by_cases absent : (right.held place).isNone = true
      · simp only [if_pos absent]
        exact ((alike.bury place none).hold place _).toAlike
      · simp only [if_neg absent]
        exact (alike.hold place _).toAlike
  | del place version =>
      have emptied := (alike.hold place none).toAlike
      have marks : marked config (left.hold place none).watermark
          ((left.hold place none).tomb place) version =
          marked config (right.hold place none).watermark
            ((right.hold place none).tomb place) version := by
        rw [emptied.watermark, emptied.tomb]
      change Alike floor (mark config _ place version) (mark config _ place version)
      unfold Node.mark
      rw [marks]
      exact emptied.bury place _

theorem Alike.applyAll (config : Config) {changes : List Change} (alike : Alike floor left right)
    (here : ∀ change ∈ changes, left.held change.place = right.held change.place) :
    Alike floor (left.applyAll config changes) (right.applyAll config changes) := by
  induction changes generalizing left right with
  | nil => exact alike
  | cons change rest induction =>
      refine induction (alike.apply config change (here change List.mem_cons_self)) ?_
      intro other member
      rw [apply_held, apply_held]
      by_cases same : other.place = change.place
      · simp only [if_pos same]
      · simp only [if_neg same]
        exact here other (List.mem_cons_of_mem _ member)

/-- A record is committed to both, after its places have been read. -/
theorem Alike.commit (config : Config) {record : AofRecord} (alike : Alike floor left right)
    (here : ∀ change ∈ record.changes, left.held change.place = right.held change.place) :
    Alike floor (left.commit config record) (right.commit config record) :=
  { alike.applyAll config here with
    clock := by
      change max left.clock _ = max right.clock _
      rw [alike.clock]
    log := by
      change left.log ++ _ = right.log ++ _
      rw [alike.log] }

theorem AlikeAt.commit (config : Config) {record : AofRecord} {change : Change}
    (alike : AlikeAt floor place left right) (single : record.changes = [change])
    (names : change.place = place) :
    Alike floor (left.commit config record) (right.commit config record) := by
  refine alike.toAlike.commit config fun other member => ?_
  rw [single, List.mem_singleton] at member
  rw [member, names]
  exact alike.here

end Alike

/-! ## Commands -/

section Commands

variable (config : Config) {floor now : Nat} {left right : Node}

theorem Alike.sameReply (alike : Alike floor left right) (reply : Bytes) :
    AlikeReply floor (left, reply) (right, reply) :=
  ⟨alike, rfl⟩

theorem Alike.plainGet (alike : Alike floor left right) (later : floor ≤ now) (resp3 : Bool)
    (name : Bytes) (args : List Bytes) :
    AlikeReply floor (left.plainGet now resp3 name args)
      (right.plainGet now resp3 name args) := by
  match args with
  | [_, key] =>
      have read := alike.touch later (name, key)
      unfold Node.plainGet
      dsimp only
      rw [read.here]
      exact read.sameReply _
  | [] => exact alike.sameReply _
  | [_] => exact alike.sameReply _
  | _ :: _ :: _ :: _ => exact alike.sameReply _

theorem Alike.plainTtl (alike : Alike floor left right) (later : floor ≤ now)
    (name : Bytes) (args : List Bytes) (millis : Bool) :
    AlikeReply floor (left.plainTtl now name args millis)
      (right.plainTtl now name args millis) := by
  match args with
  | [_, key] =>
      have read := alike.touch later (name, key)
      unfold Node.plainTtl
      dsimp only
      rw [read.here]
      cases (right.touch now (name, key)).held (name, key) with
      | none => exact read.sameReply _
      | some record =>
          dsimp only
          by_cases same : record.expireAt = 0
          · simp only [if_pos same]
            exact read.sameReply _
          · simp only [if_neg same]
            exact read.sameReply _
  | [] => exact alike.sameReply _
  | [_] => exact alike.sameReply _
  | _ :: _ :: _ :: _ => exact alike.sameReply _

theorem Alike.plainMgetLoop (alike : Alike floor left right) (later : floor ≤ now) (resp3 : Bool)
    (name out : Bytes) (keys : List Bytes) :
    AlikeReply floor (left.plainMgetLoop now resp3 name out keys)
      (right.plainMgetLoop now resp3 name out keys) := by
  induction keys generalizing left right out with
  | nil => exact alike.sameReply out
  | cons key rest induction =>
      have read := alike.touch later (name, key)
      unfold Node.plainMgetLoop
      dsimp only
      rw [read.here]
      cases (right.touch now (name, key)).held (name, key) with
      | none => exact induction read.toAlike _
      | some record =>
          dsimp only
          by_cases long : Db.maxReply < out.length + record.value.length
          · simp only [if_pos long]
            exact read.sameReply _
          · simp only [if_neg long]
            exact induction read.toAlike _

theorem Alike.plainMget (alike : Alike floor left right) (later : floor ≤ now) (resp3 : Bool)
    (name : Bytes) (args : List Bytes) :
    AlikeReply floor (left.plainMget now resp3 name args)
      (right.plainMget now resp3 name args) := by
  match args with
  | _ :: key :: rest => exact alike.plainMgetLoop later resp3 name _ (key :: rest)
  | [] => exact alike.sameReply _
  | [_] => exact alike.sameReply _

theorem Alike.plainExistsLoop (alike : Alike floor left right) (later : floor ≤ now)
    (name : Bytes) (count : Nat) (keys : List Bytes) :
    Alike floor (left.plainExistsLoop now name count keys).1
        (right.plainExistsLoop now name count keys).1 ∧
      (left.plainExistsLoop now name count keys).2 =
        (right.plainExistsLoop now name count keys).2 := by
  induction keys generalizing left right count with
  | nil => exact ⟨alike, rfl⟩
  | cons key rest induction =>
      have read := alike.touch later (name, key)
      unfold Node.plainExistsLoop
      dsimp only
      rw [read.here]
      exact induction read.toAlike _

theorem Alike.plainExists (alike : Alike floor left right) (later : floor ≤ now)
    (name : Bytes) (args : List Bytes) :
    AlikeReply floor (left.plainExists now name args) (right.plainExists now name args) := by
  match args with
  | _ :: key :: rest =>
      rcases alike.plainExistsLoop later name 0 (key :: rest) with ⟨after, count⟩
      exact ⟨after, congrArg (fun count : Nat => integer count) count⟩
  | [] => exact alike.sameReply _
  | [_] => exact alike.sameReply _

theorem Alike.plainSet (alike : Alike floor left right) (later : floor ≤ now) (resp3 : Bool)
    (name : Bytes) {args : List Bytes} {first : Bytes} (head : args.head? = some first)
    (command : upper first = ascii "SET") :
    AlikeReply floor (left.plainSet config now resp3 name args)
      (right.plainSet config now resp3 name args) := by
  match args, head with
  | [_], _ => exact alike.sameReply _
  | [_, _], _ => exact alike.sameReply _
  | named :: key :: value :: options, head =>
      obtain rfl : named = first := by simpa using head
      unfold Node.plainSet
      dsimp only
      cases Db.setOptions now {} options with
      | error err => exact alike.sameReply err
      | ok options =>
          have read := alike.touch later (name, key)
          dsimp only
          rw [read.here, read.overwritten, read.clock]
          by_cases refused : (options.nx &&
              ((Node.touch now right (name, key)).held (name, key)).isSome || options.xx &&
              ((Node.touch now right (name, key)).held (name, key)).isNone) = true
          · simp only [if_pos refused]
            exact read.sameReply _
          · simp only [if_neg refused]
            exact ⟨read.commit config (Db.changes_set rfl command) rfl, rfl⟩

theorem Alike.plainDelLoop (alike : Alike floor left right) (later : floor ≤ now)
    (name : Bytes) (count : Nat) (keys : List Bytes) :
    Alike floor (left.plainDelLoop config now name count keys).1
        (right.plainDelLoop config now name count keys).1 ∧
      (left.plainDelLoop config now name count keys).2 =
        (right.plainDelLoop config now name count keys).2 := by
  induction keys generalizing left right count with
  | nil => exact ⟨alike, rfl⟩
  | cons key rest induction =>
      have read := alike.touch later (name, key)
      unfold Node.plainDelLoop
      dsimp only
      rw [read.here, read.clock]
      cases (right.touch now (name, key)).held (name, key) with
      | none => exact induction read.toAlike _
      | some record => exact induction (read.commit config (Db.changes_del rfl) rfl) _

theorem Alike.plainDel (alike : Alike floor left right) (later : floor ≤ now)
    (name : Bytes) (args : List Bytes) :
    AlikeReply floor (left.plainDel config now name args)
      (right.plainDel config now name args) := by
  match args with
  | _ :: key :: rest =>
      rcases alike.plainDelLoop config later name 0 (key :: rest) with ⟨after, count⟩
      exact ⟨after, congrArg (fun count : Nat => integer count) count⟩
  | [] => exact alike.sameReply _
  | [_] => exact alike.sameReply _

theorem Alike.plainDeadline (alike : Alike floor left right) (later : floor ≤ now)
    (name key : Bytes) (options : Db.ExpireOptions) (scale amount expireAt : Int) :
    AlikeReply floor (left.plainDeadline config now name key options scale amount expireAt)
      (right.plainDeadline config now name key options scale amount expireAt) := by
  have spelled : upper (ascii "SET") = ascii "SET" := by decide
  have read := alike.touch later (name, key)
  unfold Node.plainDeadline
  dsimp only
  rw [read.here]
  cases (right.touch now (name, key)).held (name, key) with
  | none => exact read.sameReply _
  | some record =>
      dsimp only
      by_cases refused : scale = 0 ∧ record.expireAt = 0 ∨
          Db.expireRefused options record expireAt = true
      · simp only [if_pos refused]
        exact read.sameReply _
      · simp only [if_neg refused]
        by_cases spent : scale ≠ 0 ∧ amount ≤ 0
        · simp only [if_pos spent]
          exact read.plainDel config later name _
        · simp only [if_neg spent]
          rw [read.clock]
          exact ⟨read.commit config (Db.changes_set rfl spelled) rfl, rfl⟩

theorem Alike.plainExpire (alike : Alike floor left right) (later : floor ≤ now)
    (name : Bytes) (args : List Bytes) (scale : Int) :
    AlikeReply floor (left.plainExpire config now name args scale)
      (right.plainExpire config now name args scale) := by
  unfold Node.plainExpire
  by_cases shape : (if scale ≠ 0 then args.length < 3 else args.length ≠ 2)
  · rw [if_pos shape, if_pos shape]
    exact alike.sameReply _
  · rw [if_neg shape, if_neg shape]
    cases Db.expireOptions {} (args.drop 3) with
    | error err => exact alike.sameReply err
    | ok options =>
        dsimp only
        by_cases clash : (options.nx && (options.xx || options.gt || options.lt)) = true
        · simp only [if_pos clash]
          exact alike.sameReply _
        · simp only [if_neg clash]
          by_cases both : (options.gt && options.lt) = true
          · simp only [if_pos both]
            exact alike.sameReply _
          · simp only [if_neg both]
            cases Db.expireDeadline now scale args with
            | error err => exact alike.sameReply err
            | ok deadline => exact alike.plainDeadline config later name _ options scale _ _

theorem Alike.plainOverwritten (alike : Alike floor left right) (later : floor ≤ now)
    (name : Bytes) (greatest : Nat) (pairs : List (Bytes × Bytes)) :
    Alike floor (left.plainOverwritten now name greatest pairs).1
        (right.plainOverwritten now name greatest pairs).1 ∧
      (left.plainOverwritten now name greatest pairs).2 =
        (right.plainOverwritten now name greatest pairs).2 := by
  induction pairs generalizing left right greatest with
  | nil => exact ⟨alike, rfl⟩
  | cons pair rest induction =>
      have read := alike.touch later (name, pair.1)
      unfold Node.plainOverwritten
      dsimp only
      rw [read.overwritten]
      exact induction read.toAlike _

theorem Alike.plainMset (alike : Alike floor left right) (later : floor ≤ now)
    (name : Bytes) {args : List Bytes} {first : Bytes} (head : args.head? = some first)
    (command : upper first = ascii "MSET") :
    AlikeReply floor (left.plainMset config now name args)
      (right.plainMset config now name args) := by
  obtain ⟨rest, rfl⟩ : ∃ rest, args = first :: rest := List.head?_eq_some_iff.mp head
  unfold Node.plainMset
  by_cases malformed : (first :: rest).length < 3 ∨ (first :: rest).length % 2 = 0
  · simp only [if_pos malformed]
    exact alike.sameReply _
  · simp only [if_neg malformed]
    rcases alike.plainOverwritten later name 0 (Db.pairsOf rest) with ⟨read, greatest⟩
    have leftRead := Db.plainOverwritten_touchAll left now 0 name (Db.pairsOf rest)
    have rightRead := Db.plainOverwritten_touchAll right now 0 name (Db.pairsOf rest)
    dsimp only [List.tail_cons]
    rw [greatest, read.clock]
    refine ⟨read.commit config fun change member => ?_, rfl⟩
    rw [Db.changes_mset rfl command rfl] at member
    rcases List.mem_map.mp member with ⟨pair, listed, rfl⟩
    -- Every place that the record writes has been read in both contents.
    have member : (name, pair.1) ∈ (Db.pairsOf rest).map fun pair => (name, pair.1) :=
      List.mem_map.mpr ⟨pair, listed, rfl⟩
    change Node.held _ (name, pair.1) = Node.held _ (name, pair.1)
    rw [leftRead, rightRead, touchAll_held, touchAll_held, if_pos member, if_pos member]
    exact alike.visibleAt later (name, pair.1)

theorem Alike.plainMerge (alike : Alike floor left right) (later : floor ≤ now)
    {name first : Bytes} (key value tsArg nodeArg : Bytes) (more : List Bytes)
    (command : upper first = ascii "CRDTMERGE") (expireAt : Option Int) (version : Version) :
    AlikeReply floor
      (left.plainMerge config now name key
        (first :: key :: value :: tsArg :: nodeArg :: more) expireAt version)
      (right.plainMerge config now name key
        (first :: key :: value :: tsArg :: nodeArg :: more) expireAt version) := by
  have read := (alike.observe version.ts).touch later (name, key)
  unfold Node.plainMerge
  dsimp only
  rw [read.stale, read.here]
  by_cases older :
      (Node.touch now (right.observe version.ts) (name, key)).stale (name, key) version = true
  · simp only [if_pos older]
    exact read.sameReply _
  · simp only [if_neg older]
    exact ⟨read.commit config (Db.changes_merge rfl command) rfl, rfl⟩

theorem Alike.plainCrdtmerge (alike : Alike floor left right) (later : floor ≤ now)
    (name : Bytes) {args : List Bytes} {first : Bytes} (head : args.head? = some first)
    (command : upper first = ascii "CRDTMERGE") :
    AlikeReply floor (left.plainCrdtmerge config now name args)
      (right.plainCrdtmerge config now name args) := by
  match args, head with
  | [_], _ => exact alike.sameReply _
  | [_, _], _ => exact alike.sameReply _
  | [_, _, _], _ => exact alike.sameReply _
  | [_, _, _, _], _ => exact alike.sameReply _
  | [named, key, value, tsArg, nodeArg], head =>
      obtain rfl : named = first := by simpa using head
      unfold Node.plainCrdtmerge
      dsimp only
      cases admitVersion config now tsArg nodeArg with
      | error err => exact alike.sameReply err
      | ok version => exact alike.plainMerge config later key value tsArg nodeArg [] command _ _
  | [named, key, value, tsArg, nodeArg, expireArg], head =>
      obtain rfl : named = first := by simpa using head
      unfold Node.plainCrdtmerge
      dsimp only
      cases FsUtil.parseI64 expireArg with
      | none => exact alike.sameReply _
      | some expireAt =>
          dsimp only
          by_cases negative : expireAt < 0
          · simp only [if_pos negative]
            exact alike.sameReply _
          · simp only [if_neg negative]
            cases admitVersion config now tsArg nodeArg with
            | error err => exact alike.sameReply err
            | ok version =>
                exact alike.plainMerge config later key value tsArg nodeArg [expireArg] command _ _
  | _ :: _ :: _ :: _ :: _ :: _ :: _ :: _, _ => exact alike.sameReply _

theorem Alike.plainCrdtdel (alike : Alike floor left right) (later : floor ≤ now)
    (name : Bytes) {args : List Bytes} {first : Bytes} (head : args.head? = some first)
    (command : upper first = ascii "CRDTDEL") :
    AlikeReply floor (left.plainCrdtdel config now name args)
      (right.plainCrdtdel config now name args) := by
  match args, head with
  | [_], _ => exact alike.sameReply _
  | [_, _], _ => exact alike.sameReply _
  | [_, _, _], _ => exact alike.sameReply _
  | [named, key, tsArg, nodeArg], head =>
      obtain rfl : named = first := by simpa using head
      unfold Node.plainCrdtdel
      dsimp only
      cases admitVersion config now tsArg nodeArg with
      | error err => exact alike.sameReply err
      | ok version =>
          have read := (alike.observe version.ts).touch later (name, key)
          dsimp only
          rw [read.stale]
          by_cases older :
              (Node.touch now (right.observe version.ts) (name, key)).stale (name, key) version =
              true
          · simp only [if_pos older]
            exact read.sameReply _
          · simp only [if_neg older]
            exact ⟨read.commit config (Db.changes_crdtdel rfl command) rfl, rfl⟩
  | _ :: _ :: _ :: _ :: _ :: _, _ => exact alike.sameReply _

/-- Every command in a room replies the same on contents that are alike, and leaves them
alike. -/
theorem Alike.plain (alike : Alike floor left right) (later : floor ≤ now) (resp3 : Bool)
    (name : Bytes) {args : List Bytes} {first : Bytes} (head : args.head? = some first)
    {kind : RoomCommand} (named : Command.named (upper first) = .inRoom kind) :
    AlikeReply floor (left.plain config now resp3 name args kind)
      (right.plain config now resp3 name args kind) := by
  cases kind with
  | get => exact alike.plainGet later resp3 name args
  | set => exact alike.plainSet config later resp3 name head (Db.named_set named)
  | del => exact alike.plainDel config later name args
  | crdtmerge => exact alike.plainCrdtmerge config later name head (Db.named_crdtmerge named)
  | crdtdel => exact alike.plainCrdtdel config later name head (Db.named_crdtdel named)
  | mget => exact alike.plainMget later resp3 name args
  | mset => exact alike.plainMset config later name head (Db.named_mset named)
  | exist => exact alike.plainExists later name args
  | expire => exact alike.plainExpire config later name args 1000
  | pexpire => exact alike.plainExpire config later name args 1
  | persist => exact alike.plainExpire config later name args 0
  | ttl => exact alike.plainTtl later name args false
  | pttl => exact alike.plainTtl later name args true
  | save => exact alike.sameReply _
  | unknown => exact alike.sameReply _

end Commands

end Node

end SomniumDB
