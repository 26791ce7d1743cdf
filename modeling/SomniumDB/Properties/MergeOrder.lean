import SomniumDB.Abstract.Cell
import SomniumDB.Abstract.Origin
import SomniumDB.Abstract.Plain

/-! # The order of two merges

`CRDTMERGE` is meant to be a join: the same merge twice is the merge once, and two
merges give the same record in either order. A merge without a deadline keeps the
deadline of the record that it replaces, so that what the newer of two leaves can depend
on whether the older came first. -/

namespace SomniumDB

open Bytes FsUtil

/-- What a `CRDTMERGE` brings to its key. -/
structure Merge where
  value : Bytes
  expireAt : Option Int
  version : Version
  deriving DecidableEq

namespace Merge

/-- What the merge makes of the record that it replaces. -/
def replacing (merge : Merge) (old : Option Record) : Record where
  value := merge.value
  expireAt := merge.expireAt.getD ((old.map Record.expireAt).getD 0)
  timestampMs := merge.version.ts
  nodeId := merge.version.node

@[simp] theorem replacing_expireAt (merge : Merge) (old : Option Record) :
    (merge.replacing old).expireAt = merge.expireAt.getD ((old.map Record.expireAt).getD 0) := rfl

theorem replacing_eq_iff (merge : Merge) (old other : Option Record) :
    merge.replacing old = merge.replacing other ↔
      merge.expireAt.isSome = true ∨
        (old.map Record.expireAt).getD 0 = (other.map Record.expireAt).getD 0 := by
  unfold replacing
  rw [Record.mk.injEq]
  cases merge.expireAt <;> simp

/-- The optional deadline of the merge has not been reached. -/
def Current (merge : Merge) (now : Nat) : Prop :=
  ∀ expireAt, merge.expireAt = some expireAt → ¬ (0 < expireAt ∧ expireAt < (now : Int))

theorem Current.replacing {merge : Merge} {old : Option Record} {now : Nat}
    (current : merge.Current now) (before : ∀ record, old = some record →
      record.expired now = false) : (merge.replacing old).expired now = false := by
  have unreached : ¬ (0 < (merge.replacing old).expireAt ∧
      (merge.replacing old).expireAt < (now : Int)) := by
    rw [replacing_expireAt]
    cases given : merge.expireAt with
    | some expireAt => exact current expireAt given
    | none =>
        cases old with
        | none => simp
        | some record => simpa [Record.expired] using before record rfl
  refine Bool.eq_false_iff.mpr fun past => unreached ?_
  simpa only [Record.expired, Bool.and_eq_true, decide_eq_true_eq] using past

end Merge

/-! ## Merging into one place -/

namespace Cell

/-- A version loses against the record, else against the tombstone, else against the
watermark. -/
def refuses (watermark : Nat) (cell : Cell) (version : Version) : Bool :=
  match cell.held with
  | some record => decide (version ≤ record.version)
  | none =>
      match cell.tomb with
      | some tomb => decide (version ≤ tomb)
      | none => decide (version.ts ≤ watermark)

/-- A merge into a place whose deadline has not been reached. -/
def join (watermark : Nat) (cell : Cell) (merge : Merge) : Cell :=
  if cell.refuses watermark merge.version then cell
  else
    { held := some (merge.replacing cell.held)
      tomb := if cell.held.isNone then none else cell.tomb }

variable {watermark now : Nat} {cell : Cell} {older newer merge : Merge}

theorem join_of_refuses (refused : cell.refuses watermark merge.version = true) :
    cell.join watermark merge = cell := by
  rw [join, if_pos refused]

theorem held_join (admitted : ¬ cell.refuses watermark merge.version = true) :
    (cell.join watermark merge).held = some (merge.replacing cell.held) := by
  rw [join, if_neg admitted]

/-- A merge that was taken refuses its own version and all the older ones. -/
theorem refuses_join (admitted : ¬ cell.refuses watermark merge.version = true)
    (version : Version) :
    (cell.join watermark merge).refuses watermark version = decide (version ≤ merge.version) := by
  unfold refuses
  rw [held_join admitted]
  rfl

/-- What refuses a version refuses the older ones. -/
theorem refuses_older {before version : Version} (le : before ≤ version)
    (refused : cell.refuses watermark version = true) :
    cell.refuses watermark before = true := by
  unfold refuses at refused ⊢
  split
  · rename_i record found
    rw [found] at refused
    exact decide_eq_true (le.trans (of_decide_eq_true refused))
  · rename_i absent
    rw [absent] at refused
    dsimp only at refused
    cases found : cell.tomb with
    | none =>
        rw [found] at refused
        exact decide_eq_true ((Version.ts_le_of_le le).trans (of_decide_eq_true refused))
    | some tomb =>
        rw [found] at refused
        exact decide_eq_true (le.trans (of_decide_eq_true refused))

theorem join_join (watermark : Nat) (cell : Cell) (merge : Merge) :
    (cell.join watermark merge).join watermark merge = cell.join watermark merge := by
  by_cases refused : cell.refuses watermark merge.version = true
  · rw [join_of_refuses refused, join_of_refuses refused]
  · apply join_of_refuses
    rw [refuses_join refused]
    exact decide_eq_true le_rfl

/-- The deadline of the place, zero if there is none. -/
def deadline (cell : Cell) : Int :=
  (cell.held.map Record.expireAt).getD 0

/-- The two orders agree unless the older merge is taken, changes the deadline and the
newer one keeps what it finds. -/
theorem join_comm_iff (lt : older.version < newer.version) :
    ((cell.join watermark older).join watermark newer).held =
        ((cell.join watermark newer).join watermark older).held ↔
      cell.refuses watermark older.version = true ∨ newer.expireAt.isSome = true ∨
        older.expireAt.getD cell.deadline = cell.deadline := by
  by_cases refused : cell.refuses watermark older.version = true
  · have after : (cell.join watermark newer).refuses watermark older.version = true := by
      by_cases both : cell.refuses watermark newer.version = true
      · rw [join_of_refuses both]
        exact refused
      · rw [refuses_join both]
        exact decide_eq_true lt.le
    rw [join_of_refuses refused, join_of_refuses after]
    exact iff_of_true rfl (.inl refused)
  · have taken : ¬ cell.refuses watermark newer.version = true :=
      fun both => refused (refuses_older lt.le both)
    have first : ¬ (cell.join watermark older).refuses watermark newer.version = true := by
      rw [refuses_join refused, decide_eq_true_eq]
      exact not_le.mpr lt
    have second : (cell.join watermark newer).refuses watermark older.version = true := by
      rw [refuses_join taken]
      exact decide_eq_true lt.le
    rw [held_join first, held_join refused, join_of_refuses second, held_join taken,
      Option.some.injEq, Merge.replacing_eq_iff]
    simp only [Option.map_some, Option.getD_some, Merge.replacing_expireAt]
    exact ⟨.inr, fun agree => agree.resolve_left refused⟩

/-- No deadline of the place has been reached. -/
def Current (cell : Cell) (now : Nat) : Prop :=
  ∀ record, cell.held = some record → record.expired now = false

theorem Current.seen (current : cell.Current now) : cell.seen now = cell.held := by
  unfold Cell.seen
  cases found : cell.held with
  | none => rfl
  | some record => simp [Option.filter_some, current record found]

theorem Current.offer (current : cell.Current now) (config : Config) (watermark : Nat)
    (place : Place) (merge : Merge) :
    cell.offer config watermark now (.put place (merge.replacing cell.held)) =
      cell.join watermark merge := by
  have stale : cell.stale watermark now merge.version = cell.refuses watermark merge.version :=
    congrArg (fun held => ({ cell with held } : Cell).refuses watermark merge.version)
      current.seen
  unfold Cell.offer join
  rw [current.seen]
  change (if cell.stale watermark now merge.version = true then _ else _) = _
  rw [stale]

theorem Current.join (current : cell.Current now) (merges : merge.Current now) :
    (cell.join watermark merge).Current now := by
  intro record found
  by_cases refused : cell.refuses watermark merge.version = true
  · rw [join_of_refuses refused] at found
    exact current record found
  · rw [held_join refused] at found
    rcases Option.some.inj found with rfl
    exact merges.replacing current

end Cell

/-! ## The handler -/

/-- The key and the merge of a well-formed `CRDTMERGE`. -/
def merging : List Bytes → Option (Bytes × Merge)
  | [first, key, value, tsArg, nodeArg] =>
      if upper first = ascii "CRDTMERGE" then
        (Db.stamp tsArg nodeArg).map fun version => (key, ⟨value, none, version⟩)
      else none
  | [first, key, value, tsArg, nodeArg, expireArg] =>
      match parseI64 expireArg with
      | none => none
      | some expireAt =>
          if upper first = ascii "CRDTMERGE" ∧ 0 ≤ expireAt then
            (Db.stamp tsArg nodeArg).map fun version => (key, ⟨value, some expireAt, version⟩)
          else none
  | _ => none

namespace Db

variable {db : Db} {name key : Bytes} {args : List Bytes} {merge : Merge} {now later : Nat}

/-- A merge whose version has been admitted is offered to the plain store. -/
theorem plainMerge_eq_offer {first value tsArg nodeArg : Bytes} {more : List Bytes}
    (config : Config) (node : Node) (current : (node.cell (name, key)).Current now)
    (expireAt : Option Int) (version : Version) :
    let command := first :: key :: value :: tsArg :: nodeArg :: more
    let record := mergeRecord name command expireAt version (node.held (name, key))
    (node.plainMerge config now name key command expireAt version).1 =
      node.offer config now record (record.put key value) := by
  have touched : ((node.observe version.ts).touch now (name, key)).held (name, key) =
      node.held (name, key) :=
    (Node.hold_held _ _ _ _).trans ((if_pos rfl).trans current.seen)
  unfold Node.plainMerge
  dsimp only
  rw [touched, Node.offer_eq, apply_ite Prod.fst]
  rfl

/-- What it leaves under its key. -/
theorem cell_plainMerge {first value tsArg nodeArg : Bytes} {more : List Bytes}
    (command : upper first = ascii "CRDTMERGE") (config : Config) (node : Node)
    (current : (node.cell (name, key)).Current now) (expireAt : Option Int) (version : Version) :
    (node.plainMerge config now name key
        (first :: key :: value :: tsArg :: nodeArg :: more) expireAt version).1.cell (name, key) =
      (node.cell (name, key)).join node.watermark ⟨value, expireAt, version⟩ := by
  have joined := current.offer config node.watermark (name, key) ⟨value, expireAt, version⟩
  rw [plainMerge_eq_offer config node current expireAt version,
    Node.cell_offer config now node (changes_merge rfl command)]
  exact (if_pos rfl).trans joined

theorem watermark_plainMerge {first value tsArg nodeArg : Bytes} {more : List Bytes}
    (config : Config) (node : Node) (current : (node.cell (name, key)).Current now)
    (expireAt : Option Int) (version : Version) :
    (node.plainMerge config now name key
        (first :: key :: value :: tsArg :: nodeArg :: more) expireAt version).1.watermark =
      node.watermark := by
  rw [plainMerge_eq_offer config node current expireAt version, Node.offer_watermark]

instance (db : Db) (now : Nat) (version : Version) : Decidable (db.Near now version) :=
  inferInstanceAs (Decidable (_ ≤ _))

/-- What a merge makes of its place: a version that is too far in the future is refused. -/
def received (db : Db) (now : Nat) (cell : Cell) (merge : Merge) : Cell :=
  if db.Near now merge.version then cell.join db.watermark merge else cell

/-- What a merge makes of the state. -/
structure Merged (db after : Db) (now : Nat) (name key : Bytes) (merge : Merge) : Prop where
  wellFormed : after.WellFormed
  awake : after.Awake name
  config : after.config = db.config
  watermark : after.watermark = db.watermark
  cell : after.node.cell (name, key) = db.received now (db.node.cell (name, key)) merge

theorem Merged.of_plain {outcome : Db × Bytes} {first value tsArg nodeArg : Bytes}
    {more : List Bytes} (awake : db.Awake name) (command : upper first = ascii "CRDTMERGE")
    (current : (db.node.cell (name, key)).Current now) {expireAt : Option Int}
    {version : Version} (near : db.Near now version)
    (means : Means db outcome (db.node.plainMerge db.config now name key
      (first :: key :: value :: tsArg :: nodeArg :: more) expireAt version)) :
    Merged db outcome.1 now name key ⟨value, expireAt, version⟩ where
  wellFormed := means.acts.wellFormed
  awake := means.acts.frame.awake awake
  config := means.acts.frame.config
  watermark := by
    change outcome.1.node.watermark = _
    rw [means.acts.node, watermark_plainMerge _ _ current]
    rfl
  cell := by
    rw [means.acts.node, cell_plainMerge command _ _ current, received, if_pos near]
    rfl

/-- A version that is not near is refused. -/
theorem incomingVersion_of_far {tsArg nodeArg : Bytes} {version : Version}
    (stamped : stamp tsArg nodeArg = some version) (far : ¬ db.Near now version) :
    ∃ err, db.incomingVersion now tsArg nodeArg = .error err := by
  cases admitted : db.incomingVersion now tsArg nodeArg with
  | error err => exact ⟨err, rfl⟩
  | ok found =>
      rcases found with ⟨observed, other⟩
      have ok := incomingVersion_ok admitted
      rcases ok.ts with ⟨ts, parsedTs, normalized⟩
      simp only [stamp, parsedTs, ok.node, if_neg (Nat.not_lt.mpr ok.small), normalized,
        Option.some.injEq] at stamped
      subst stamped
      exact absurd ok.near far

theorem merged_handleCrdtmerge (wellFormed : db.WellFormed) (awake : db.Awake name)
    (brings : merging args = some (key, merge))
    (current : (db.node.cell (name, key)).Current now) :
    Merged db (db.handleCrdtmerge now name args).1 now name key merge := by
  have refused : (¬ db.Near now merge.version) → Merged db db now name key merge :=
    fun far => ⟨wellFormed, awake, rfl, rfl, (if_neg far).symm⟩
  unfold merging at brings
  split at brings
  · rename_i first _ value tsArg nodeArg
    by_cases command : first.upper = ascii "CRDTMERGE"
    · rw [if_pos command] at brings
      rcases Option.map_eq_some_iff.mp brings with ⟨version, stamped, equal⟩
      cases equal
      unfold handleCrdtmerge Keyspace.handleCrdtmerge
      simp only [Keyspace.ofDb]
      by_cases near : db.Near now version
      · rw [incomingVersion_of_near stamped near]
        exact Merged.of_plain awake command current near
          (means_mergeInto wellFormed awake now key value tsArg nodeArg [] command none version)
      · rcases incomingVersion_of_far stamped near with ⟨err, answer⟩
        rw [answer]
        exact refused near
    · rw [if_neg command] at brings
      cases brings
  · rename_i first _ value tsArg nodeArg expireArg
    cases parsed : parseI64 expireArg with
    | none =>
        simp only [parsed] at brings
        cases brings
    | some expireAt =>
        simp only [parsed] at brings
        by_cases shape : first.upper = ascii "CRDTMERGE" ∧ 0 ≤ expireAt
        · rw [if_pos shape] at brings
          rcases Option.map_eq_some_iff.mp brings with ⟨version, stamped, equal⟩
          cases equal
          unfold handleCrdtmerge Keyspace.handleCrdtmerge
          simp only [Keyspace.ofDb]
          rw [parsed]
          dsimp only
          rw [if_neg (Int.not_lt.mpr shape.2)]
          by_cases near : db.Near now version
          · rw [incomingVersion_of_near stamped near]
            exact Merged.of_plain awake shape.1 current near
              (means_mergeInto wellFormed awake now key value tsArg nodeArg [expireArg] shape.1
                (some expireAt) version)
          · rcases incomingVersion_of_far stamped near with ⟨err, answer⟩
            rw [answer]
            exact refused near
        · rw [if_neg shape] at brings
          cases brings
  · cases brings

/-- Two merges, the first at `now` and the second at `later`. -/
def mergeBoth (db : Db) (now later : Nat) (name : Bytes) (first second : List Bytes) : Db :=
  ((db.handleCrdtmerge now name first).1.handleCrdtmerge later name second).1

/-- Two merges of a key are a join: in either order they leave the same record, and each
of them twice is the same as once. -/
structure MergesJoin (db : Db) (now later : Nat) (name key : Bytes) (one other : List Bytes) :
    Prop where
  commute : (db.mergeBoth now later name one other).held (name, key) =
    (db.mergeBoth now later name other one).held (name, key)
  once : ∀ args ∈ [one, other], (db.mergeBoth now later name args args).held (name, key) =
    (db.handleCrdtmerge now name args).1.held (name, key)

/-- Neither the deadline under a key nor those of two merges have been reached. -/
structure Unreached (db : Db) (name key : Bytes) (one other : Merge) (now : Nat) : Prop where
  held : ∀ record, db.held (name, key) = some record → record.expired now = false
  one : one.Current now
  other : other.Current now

/-- What the newer of two merges leaves does not depend on the older one: that one is
refused or stale, or the newer one has a deadline of its own, or the older one leaves the
deadline as it is. -/
def DeadlineKept (db : Db) (now : Nat) (name key : Bytes) (older newer : Merge) : Prop :=
  ¬ db.Near now older.version ∨ ¬ db.Near now newer.version ∨
    (db.node.cell (name, key)).refuses db.watermark older.version = true ∨
    newer.expireAt.isSome = true ∨
    older.expireAt.getD (db.node.cell (name, key)).deadline = (db.node.cell (name, key)).deadline

theorem received_congr {after : Db} (config : after.config = db.config)
    (watermark : after.watermark = db.watermark) (now : Nat) (cell : Cell) (merge : Merge) :
    after.received now cell merge = db.received now cell merge := by
  have near : after.Near now merge.version ↔ db.Near now merge.version := by
    unfold Near
    rw [config]
  unfold received
  rw [watermark]
  exact if_congr near rfl rfl

theorem current_received {cell : Cell} (start : cell.Current later) (current : merge.Current later)
    (now : Nat) : (db.received now cell merge).Current later := by
  unfold received
  by_cases near : db.Near now merge.version
  · rw [if_pos near]
    exact start.join current
  · rw [if_neg near]
    exact start

/-- The place receives one merge after the other. -/
theorem cell_mergeBoth {one other : List Bytes} {left right : Merge}
    (wellFormed : db.WellFormed) (awake : db.Awake name)
    (bringsOne : merging one = some (key, left)) (bringsOther : merging other = some (key, right))
    (startNow : (db.node.cell (name, key)).Current now)
    (startLater : (db.node.cell (name, key)).Current later) (current : left.Current later) :
    (db.mergeBoth now later name one other).node.cell (name, key) =
      db.received later (db.received now (db.node.cell (name, key)) left) right := by
  have first := merged_handleCrdtmerge wellFormed awake bringsOne startNow
  have between : ((db.handleCrdtmerge now name one).1.node.cell (name, key)).Current later := by
    rw [first.cell]
    exact current_received startLater current now
  have second := merged_handleCrdtmerge first.wellFormed first.awake bringsOther between
  unfold mergeBoth
  rw [second.cell, first.cell]
  exact received_congr first.config first.watermark later _ right

/-- Two merges are a join if and only if the newer one leaves the same deadline with and
without the older one. -/
theorem merges_join_iff (wellFormed : db.WellFormed) (awake : db.Awake name)
    {olderArgs newerArgs : List Bytes} {older newer : Merge}
    (bringsOlder : merging olderArgs = some (key, older))
    (bringsNewer : merging newerArgs = some (key, newer)) (lt : older.version < newer.version)
    (alike : ∀ merge ∈ [older, newer],
      (db.Near now merge.version ↔ db.Near later merge.version))
    (unreached : ∀ time ∈ [now, later], Unreached db name key older newer time) :
    MergesJoin db now later name key olderArgs newerArgs ↔
      DeadlineKept db now name key older newer := by
  have atNow := unreached now List.mem_cons_self
  have atLater := unreached later (List.mem_cons_of_mem _ List.mem_cons_self)
  have olderAlike := alike older List.mem_cons_self
  have newerAlike := alike newer (List.mem_cons_of_mem _ List.mem_cons_self)
  set cell := db.node.cell (name, key) with cellEq
  have forward := cell_mergeBoth wellFormed awake bringsOlder bringsNewer atNow.held
    atLater.held atLater.one
  have backward := cell_mergeBoth wellFormed awake bringsNewer bringsOlder atNow.held
    atLater.held atLater.other
  have again : ∀ {args : List Bytes} {merge : Merge}, merging args = some (key, merge) →
      merge.Current later → (db.Near now merge.version ↔ db.Near later merge.version) →
      (db.mergeBoth now later name args args).node.cell (name, key) =
        (db.handleCrdtmerge now name args).1.node.cell (name, key) := by
    intro args merge brings current same
    rw [cell_mergeBoth wellFormed awake brings brings atNow.held atLater.held current,
      (merged_handleCrdtmerge wellFormed awake brings atNow.held).cell]
    by_cases near : db.Near now merge.version
    · simp only [received, if_pos near, if_pos (same.mp near), Cell.join_join]
    · simp only [received, if_neg near, if_neg (near ∘ same.mpr)]
  have once : ∀ args ∈ [olderArgs, newerArgs],
      (db.mergeBoth now later name args args).held (name, key) =
        (db.handleCrdtmerge now name args).1.held (name, key) := by
    intro args member
    rcases List.mem_cons.mp member with rfl | member
    · exact congrArg Cell.held (again bringsOlder atLater.one olderAlike)
    · rcases List.mem_singleton.mp member with rfl
      exact congrArg Cell.held (again bringsNewer atLater.other newerAlike)
  have orders : MergesJoin db now later name key olderArgs newerArgs ↔
      (db.received later (db.received now cell older) newer).held =
        (db.received later (db.received now cell newer) older).held := by
    rw [← forward, ← backward]
    exact ⟨fun join => join.commute, fun commute => ⟨commute, once⟩⟩
  rw [orders]
  unfold received DeadlineKept
  by_cases nearOlder : db.Near now older.version
  · by_cases nearNewer : db.Near now newer.version
    · rw [if_pos nearOlder, if_pos nearNewer, if_pos (olderAlike.mp nearOlder),
        if_pos (newerAlike.mp nearNewer), Cell.join_comm_iff lt]
      exact ⟨fun kept => .inr (.inr kept), fun kept =>
        (kept.resolve_left (not_not.mpr nearOlder)).resolve_left (not_not.mpr nearNewer)⟩
    · rw [if_neg nearNewer, if_pos nearOlder, if_pos (olderAlike.mp nearOlder),
        if_neg (nearNewer ∘ newerAlike.mpr)]
      exact iff_of_true rfl (.inr (.inl nearNewer))
  · rw [if_neg nearOlder, if_neg (nearOlder ∘ olderAlike.mpr), if_congr newerAlike rfl rfl]
    exact iff_of_true rfl (.inl nearOlder)

/-! ## Two merges of one key -/

/-- A node whose default room has been woken. -/
def awakeSample : Db :=
  (fresh {} 1750000000000).step (clientCall 1750000001000 [ascii "GET", ascii "k"])

def olderSample (more : List Bytes) : List Bytes :=
  [ascii "CRDTMERGE", ascii "k", ascii "old", decimal (1750000000500 * 2 ^ 16), ascii "2"] ++ more

def newerSample : List Bytes :=
  [ascii "CRDTMERGE", ascii "k", ascii "new", decimal (1750000000600 * 2 ^ 16), ascii "3"]

def olderMerge (expireAt : Option Int) : Merge :=
  ⟨ascii "old", expireAt, ⟨1750000000500 * 2 ^ 16, 2⟩⟩

def newerMerge : Merge :=
  ⟨ascii "new", none, ⟨1750000000600 * 2 ^ 16, 3⟩⟩

theorem lt_sample (expireAt : Option Int) : (olderMerge expireAt).version < newerMerge.version :=
  Version.lt_of_ts_lt (show (1750000000500 * 2 ^ 16 : Nat) < 1750000000600 * 2 ^ 16 by decide)

theorem unreached_sample {expireAt : Option Int} {now : Nat}
    (current : (olderMerge expireAt).Current now) :
    Unreached awakeSample defaultRoom (ascii "k") (olderMerge expireAt) newerMerge now where
  held record found := by
    have empty : awakeSample.held (defaultRoom, ascii "k") = none := by decide +kernel
    cases empty.symm.trans found
  one := current
  other := by rintro _ ⟨⟩

/-- Without deadlines the order does not matter. -/
theorem merges_join_sample :
    MergesJoin awakeSample 1750000002000 1750000003000 defaultRoom (ascii "k") (olderSample [])
      newerSample := by
  have bringsOlder : merging (olderSample []) = some (ascii "k", olderMerge none) := by
    decide +kernel
  have bringsNewer : merging newerSample = some (ascii "k", newerMerge) := by decide +kernel
  have awake : awakeSample.Awake defaultRoom := by
    unfold Awake
    decide +kernel
  refine (merges_join_iff ((sane_fresh {} 1750000000000).stepped _).wellFormed awake bringsOlder
    bringsNewer (lt_sample none) ?_ ?_).mpr (.inr (.inr (.inr (.inr rfl))))
  · intro merge member
    rcases List.mem_cons.mp member with rfl | member
    · exact iff_of_true (by decide +kernel) (by decide +kernel)
    · rcases List.mem_singleton.mp member with rfl
      exact iff_of_true (by decide +kernel) (by decide +kernel)
  · intro time _
    exact unreached_sample (by rintro _ ⟨⟩)

/-- The newer merge has no deadline: the key expires only if the older one came first. -/
theorem deadline_depends_on_order :
    merging (olderSample [decimal 1750000100000]) =
        some (ascii "k", olderMerge (some 1750000100000)) ∧
      merging newerSample = some (ascii "k", newerMerge) ∧
      (olderMerge (some 1750000100000)).version ≠ newerMerge.version ∧
      (∀ time ∈ [1750000002000, 1750000003000], Unreached awakeSample defaultRoom (ascii "k")
        (olderMerge (some 1750000100000)) newerMerge time) ∧
      ¬ MergesJoin awakeSample 1750000002000 1750000003000 defaultRoom (ascii "k")
        (olderSample [decimal 1750000100000]) newerSample := by
  refine ⟨by decide +kernel, by decide +kernel, (lt_sample _).ne, ?_, ?_⟩
  · intro time member
    have early : time ≤ 1750000003000 := by
      rcases List.mem_cons.mp member with rfl | member
      · decide
      · exact (List.mem_singleton.mp member).le
    apply unreached_sample
    rintro expireAt ⟨⟩
    omega
  · intro join
    exact absurd join.commute (by decide +kernel)

end Db

end SomniumDB
