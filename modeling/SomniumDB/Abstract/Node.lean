import Mathlib.Logic.Function.Basic
import Mathlib.Logic.Relation
import SomniumDB.Abstract.Change

/-! # What a node is for

The logical content of a node, whatever the medium a record is kept in: a
record or a tombstone for each place, the clock, and the log. Commands act on
it in a handful of ways, and every invariant of the development is an
invariant of these steps. -/

namespace SomniumDB

open Bytes

/-- The logical content of a node. -/
@[ext] structure Node where
  held : Place → Option Record
  tomb : Place → Option Version
  watermark : Nat
  frontier : Nat
  clock : Nat
  log : List AofRecord

namespace Node

/-- What a place holds is replaced. -/
def hold (node : Node) (place : Place) (record : Option Record) : Node :=
  { node with held := Function.update node.held place record }

/-- The tombstone of a place is replaced. -/
def bury (node : Node) (place : Place) (version : Option Version) : Node :=
  { node with tomb := Function.update node.tomb place version }

def observe (node : Node) (ts : Nat) : Node :=
  { node with clock := max node.clock ts }

/-- A place is read: an expired record is dropped. -/
def touch (now : Nat) (node : Node) (place : Place) : Node :=
  node.hold place ((node.held place).filter fun record => !record.expired now)

/-- What `set_tomb` leaves under a place. -/
def marked (config : Config) (watermark : Nat) (stored : Option Version)
    (version : Version) : Option Version :=
  if config.peerCount = 0 ∨ version.ts ≤ watermark then stored
  else some ((stored.map fun old => max old version).getD version)

def mark (config : Config) (node : Node) (place : Place) (version : Version) : Node :=
  node.bury place (marked config node.watermark (node.tomb place) version)

/-- A change applied as the live commands do: a write to an absent place
clears its tombstone, a delete leaves one. -/
def apply (config : Config) (node : Node) : Change → Node
  | .put place record =>
      (if (node.held place).isNone then node.bury place none else node).hold place
        (some record)
  | .del place version => (node.hold place none).mark config place version

def applyAll (config : Config) (node : Node) (changes : List Change) : Node :=
  changes.foldl (apply config) node

/-- A record appended to the log together with its changes. -/
def commit (config : Config) (node : Node) (record : AofRecord) : Node :=
  { node.applyAll config record.changes with
    clock := max node.clock record.timestampMs
    log := node.log ++ [record] }

/-- A version loses against what a place holds. -/
def stale (node : Node) (place : Place) (version : Version) : Bool :=
  match node.held place with
  | some record => decide (version ≤ record.version)
  | none =>
      match node.tomb place with
      | some tomb => decide (version ≤ tomb)
      | none => decide (version.ts ≤ node.watermark)

/-- A replicated change: observed, and committed unless it is stale. -/
def offer (config : Config) (now : Nat) (node : Node) (record : AofRecord)
    (change : Change) : Node :=
  let touched := (node.observe change.version.ts).touch now change.place
  if touched.stale change.place change.version then touched
  else touched.commit config record

/-- A change applied as replay does: a write leaves the tombstone of its place
alone. -/
def replay (config : Config) (node : Node) : Change → Node
  | .put place record => (node.hold place (some record)).observe record.timestampMs
  | .del place version =>
      ((node.hold place none).mark config place version).observe version.ts

/-- A write or delete of this node's own: its version is above the clock and
above everything it overwrites. -/
structure Issued (config : Config) (now : Nat) (node : Node) (record : AofRecord) :
    Prop where
  origin : record.nodeId = config.nodeId
  sound : record.Sound
  fresh : node.clock < record.timestampMs
  current : now * 2 ^ 16 ≤ record.timestampMs
  beats : ∀ change ∈ record.changes, ∀ held, node.held change.place = some held →
    held.expired now = false ∧ held.timestampMs < record.timestampMs
  buried : ∀ change ∈ record.changes, node.held change.place = none →
    ∀ tomb, node.tomb change.place = some tomb → tomb.ts < record.timestampMs
  /-- Only a key that is there is deleted. -/
  present : ∀ place version, .del place version ∈ record.changes →
    (node.held place).isSome

/-- A replicated write or delete that was found not to be stale. -/
structure Received (now : Nat) (node : Node) (record : AofRecord) (change : Change) :
    Prop where
  sound : record.Sound
  single : record.changes = [change]
  current : ∀ held, node.held change.place = some held → held.expired now = false
  admitted : node.stale change.place change.version = false

/-- What reloading, hibernation and the removal of expired records may do to
one place. -/
def Settles (now : Nat) (before after : Option Record) : Prop :=
  after = before ∨ (after = none ∧ ∃ record, before = some record ∧
    record.expired now = true) ∨ after = before.map Record.normalized

/-- What a reader and the watchdog may do to one place: an expired record is
removed. -/
def Drops (now : Nat) (before after : Option Record) : Prop :=
  after = before ∨ (after = none ∧ ∃ record, before = some record ∧
    record.expired now = true)

/-- The step of a reader or of the watchdog. -/
inductive Shed (_ : Config) (now : Nat) : Node → Node → Prop
  | drop {node : Node} (held : Place → Option Record)
      (drops : ∀ place, Drops now (node.held place) (held place)) :
      Shed _ now node { node with held }

/-- The steps that a node takes by itself at one clock reading. -/
inductive Local (config : Config) (now : Nat) : Node → Node → Prop
  | settle {node : Node} (held : Place → Option Record)
      (settles : ∀ place, Settles now (node.held place) (held place)) :
      Local config now node { node with held }
  | issue {node : Node} (record : AofRecord)
      (issued : Issued config now node record) :
      Local config now node (node.commit config record)

/-- The steps of a node, those caused by its peers included. -/
inductive Step (config : Config) (now : Nat) : Node → Node → Prop
  | own {node after : Node} (step : Local config now node after) :
      Step config now node after
  | observe {node : Node} (ts : Nat) : Step config now node (node.observe ts)
  | receive {node : Node} (record : AofRecord) (change : Change)
      (received : Received now node record change) :
      Step config now node (node.commit config record)
  | announce {node : Node} (fresh : Nat) (above : node.clock < fresh) :
      Step config now node { node with frontier := fresh, clock := fresh }
  | collect {node : Node} (low : Nat) (above : node.watermark < low) :
      Step config now node
        { node with
          watermark := low
          tomb := fun place => (node.tomb place).filter fun version =>
            decide (low < version.ts) }

abbrev Locals (config : Config) (now : Nat) : Node → Node → Prop :=
  Relation.ReflTransGen (Local config now)

abbrev Steps (config : Config) (now : Nat) : Node → Node → Prop :=
  Relation.ReflTransGen (Step config now)

theorem Locals.steps {config : Config} {now : Nat} {node after : Node}
    (locals : Locals config now node after) : Steps config now node after :=
  Relation.ReflTransGen.mono (fun _ _ step => .own step) _ _ locals

section Fields

variable (node : Node) (place : Place) (record : Option Record) (version : Option Version)
  (ts : Nat)

@[simp] theorem hold_tomb : (node.hold place record).tomb = node.tomb := rfl
@[simp] theorem hold_watermark : (node.hold place record).watermark = node.watermark := rfl
@[simp] theorem hold_frontier : (node.hold place record).frontier = node.frontier := rfl
@[simp] theorem hold_clock : (node.hold place record).clock = node.clock := rfl
@[simp] theorem hold_log : (node.hold place record).log = node.log := rfl
@[simp] theorem bury_held : (node.bury place version).held = node.held := rfl
@[simp] theorem observe_held : (node.observe ts).held = node.held := rfl
@[simp] theorem observe_tomb : (node.observe ts).tomb = node.tomb := rfl
@[simp] theorem observe_log : (node.observe ts).log = node.log := rfl

theorem hold_held (other : Place) :
    (node.hold place record).held other =
      if other = place then record else node.held other := by
  simp only [hold, Function.update_apply]

theorem bury_tomb (other : Place) :
    (node.bury place version).tomb other =
      if other = place then version else node.tomb other := by
  simp only [bury, Function.update_apply]

theorem hold_self : node.hold place (node.held place) = node := by
  simp only [hold, Function.update_eq_self]

theorem hold_hold (later : Option Record) :
    (node.hold place record).hold place later = node.hold place later := by
  simp only [hold, Function.update_idem]

end Fields

theorem Settles.refl (now : Nat) (record : Option Record) :
    Settles now record record := .inl rfl

theorem drops_filter (now : Nat) (record : Option Record) :
    Drops now record (record.filter fun held => !held.expired now) := by
  cases record with
  | none => exact .inl rfl
  | some held =>
      cases past : held.expired now with
      | false => exact .inl (by simp [past])
      | true => exact .inr ⟨by simp [past], held, rfl, past⟩

theorem Drops.settles {now : Nat} {before after : Option Record}
    (drops : Drops now before after) : Settles now before after := by
  rcases drops with same | gone
  · exact .inl same
  · exact .inr (.inl gone)

theorem Shed.isLocal {config : Config} {now : Nat} {node after : Node}
    (shed : Shed config now node after) : Local config now node after := by
  cases shed with
  | drop held drops => exact .settle held fun place => (drops place).settles

theorem shed_touch (config : Config) (now : Nat) (node : Node) (place : Place) :
    Shed config now node (node.touch now place) := by
  apply Shed.drop
  intro other
  by_cases same : other = place
  · subst other
    rw [Function.update_self]
    exact drops_filter now _
  · rw [Function.update_of_ne same]
    exact .inl rfl

/-- After a place has been read, what it holds has not expired. -/
theorem touch_current (now : Nat) (node : Node) (place : Place) (held : Record)
    (present : (node.touch now place).held place = some held) :
    held.expired now = false := by
  simp only [touch, hold_held, if_true] at present
  have kept := (Option.filter_eq_some_iff.mp present).2
  simpa using kept

/-- Reading a place that holds nothing expired changes nothing. -/
theorem touch_of_current {now : Nat} {node : Node} {place : Place}
    (current : ∀ held, node.held place = some held → held.expired now = false) :
    node.touch now place = node := by
  have kept : (node.held place).filter (fun record => !record.expired now) =
      node.held place := by
    cases present : node.held place with
    | none => rfl
    | some held => simp [Option.filter_some, current held present]
  rw [touch, kept, hold_self]

/-- Several places are read in turn. -/
def touchAll (now : Nat) (node : Node) (places : List Place) : Node :=
  places.foldl (touch now) node

theorem touchAll_held (now : Nat) (node : Node) (places : List Place) (place : Place) :
    (node.touchAll now places).held place =
      if place ∈ places then (node.held place).filter fun record => !record.expired now
      else node.held place := by
  induction places generalizing node with
  | nil => rfl
  | cons first rest induction =>
      change ((node.touch now first).touchAll now rest).held place = _
      rw [induction, touch, hold_held]
      by_cases same : place = first
      · subst first
        by_cases again : place ∈ rest <;> simp [again]
      · simp [same]

theorem touchAll_fields (now : Nat) (node : Node) (places : List Place) :
    ∃ held, node.touchAll now places = { node with held } := by
  induction places generalizing node with
  | nil => exact ⟨node.held, rfl⟩
  | cons first rest induction =>
      rcases induction (node.touch now first) with ⟨held, equal⟩
      exact ⟨held, equal⟩

theorem locals_touchAll (config : Config) (now : Nat) (node : Node)
    (places : List Place) : Locals config now node (node.touchAll now places) := by
  induction places generalizing node with
  | nil => exact .refl
  | cons first rest induction =>
      exact .head (shed_touch config now node first).isLocal (induction _)

/-- The greatest timestamp that a write to a place overwrites: that of its
record or, failing that, of its tombstone. -/
def overwritten (node : Node) (place : Place) : Nat :=
  ((node.held place).map Record.timestampMs).getD
    (((node.tomb place).map Version.ts).getD 0)

theorem overwritten_touchAll {now : Nat} {node : Node} {place : Place}
    (current : ∀ held, node.held place = some held → held.expired now = false)
    (places : List Place) :
    (node.touchAll now places).overwritten place = node.overwritten place := by
  have kept : (node.touchAll now places).held place = node.held place := by
    rw [touchAll_held]
    by_cases member : place ∈ places
    · rw [if_pos member]
      cases present : node.held place with
      | none => rfl
      | some held => simp [Option.filter_some, current held present]
    · rw [if_neg member]
  rcases touchAll_fields now node places with ⟨held, equal⟩
  rw [overwritten, overwritten, kept, equal]

/-- A local write or delete of a place that has just been read. -/
theorem Issued.of_current {config : Config} {now : Nat} {node : Node}
    {record : AofRecord} (origin : record.nodeId = config.nodeId) (sound : record.Sound)
    (fresh : node.clock < record.timestampMs)
    (current : now * 2 ^ 16 ≤ record.timestampMs)
    (surpassed : ∀ change ∈ record.changes,
      (∀ held, node.held change.place = some held → held.expired now = false) ∧
        node.overwritten change.place < record.timestampMs)
    (present : ∀ place version, .del place version ∈ record.changes →
      (node.held place).isSome) : Issued config now node record where
  origin := origin
  sound := sound
  fresh := fresh
  current := current
  beats change member held here := by
    have bound := (surpassed change member).2
    rw [overwritten, here] at bound
    exact ⟨(surpassed change member).1 held here, bound⟩
  buried change member absent tomb here := by
    have bound := (surpassed change member).2
    rw [overwritten, absent, here] at bound
    exact bound
  present := present

/-! ## Applying changes -/

section Apply

variable (config : Config) (node : Node) (change : Change) (changes : List Change)

@[simp] theorem apply_watermark : (node.apply config change).watermark = node.watermark := by
  cases change with
  | put place record =>
      simp only [apply, hold_watermark]
      by_cases absent : (node.held place).isNone = true
      · rw [if_pos absent]
        rfl
      · rw [if_neg absent]
  | del place version => rfl

@[simp] theorem apply_frontier : (node.apply config change).frontier = node.frontier := by
  cases change with
  | put place record =>
      simp only [apply, hold_frontier]
      by_cases absent : (node.held place).isNone = true
      · rw [if_pos absent]
        rfl
      · rw [if_neg absent]
  | del place version => rfl

@[simp] theorem apply_clock : (node.apply config change).clock = node.clock := by
  cases change with
  | put place record =>
      simp only [apply, hold_clock]
      by_cases absent : (node.held place).isNone = true
      · rw [if_pos absent]
        rfl
      · rw [if_neg absent]
  | del place version => rfl

@[simp] theorem apply_log : (node.apply config change).log = node.log := by
  cases change with
  | put place record =>
      simp only [apply, hold_log]
      by_cases absent : (node.held place).isNone = true
      · rw [if_pos absent]
        rfl
      · rw [if_neg absent]
  | del place version => rfl

theorem apply_held (other : Place) :
    (node.apply config change).held other =
      if other = change.place then change.result else node.held other := by
  cases change with
  | put place record =>
      by_cases same : other = place
      · simp [apply, hold_held, Change.place, Change.result, same]
      · simp only [apply, hold_held, Change.place, if_neg same]
        by_cases absent : (node.held place).isNone = true
        · rw [if_pos absent]
          simp [same]
        · rw [if_neg absent]
          simp [same]
  | del place version =>
      by_cases same : other = place <;>
        simp [apply, mark, hold_held, Change.place, Change.result, same]

theorem apply_withClock (clock : Nat) :
    { node with clock }.apply config change =
      { node.apply config change with clock } := by
  cases change with
  | put place record =>
      simp only [apply]
      by_cases absent : (node.held place).isNone = true
      · simp only [if_pos absent]
        rfl
      · simp only [if_neg absent]
        rfl
  | del place version => rfl

theorem applyAll_withClock (clock : Nat) :
    { node with clock }.applyAll config changes =
      { node.applyAll config changes with clock } := by
  induction changes generalizing node with
  | nil => rfl
  | cons change rest induction =>
      change ({ node with clock }.apply config change).applyAll config rest = _
      rw [apply_withClock, induction]
      rfl

@[simp] theorem applyAll_watermark :
    (node.applyAll config changes).watermark = node.watermark := by
  induction changes generalizing node with
  | nil => rfl
  | cons change rest induction =>
      exact (induction _).trans (apply_watermark config node change)

@[simp] theorem applyAll_frontier :
    (node.applyAll config changes).frontier = node.frontier := by
  induction changes generalizing node with
  | nil => rfl
  | cons change rest induction =>
      exact (induction _).trans (apply_frontier config node change)

@[simp] theorem applyAll_log : (node.applyAll config changes).log = node.log := by
  induction changes generalizing node with
  | nil => rfl
  | cons change rest induction =>
      exact (induction _).trans (apply_log config node change)

end Apply

/-- A change whose version the clock has already observed. -/
theorem offer_of_observed {config : Config} {now : Nat} {node touched : Node}
    {record : AofRecord} {change : Change} (observed : change.version.ts ≤ node.clock)
    (equal : touched = node.touch now change.place) :
    node.offer config now record change =
      if touched.stale change.place change.version then touched
      else touched.commit config record := by
  have same : node.observe change.version.ts = node := by
    simp only [observe, max_eq_left observed]
  rw [offer, same, equal]

/-- An offer logs at most the record offered. -/
theorem offer_log (config : Config) (now : Nat) (node : Node) (record : AofRecord)
    (change : Change) :
    (node.offer config now record change).log = node.log ∨
      (node.offer config now record change).log = node.log ++ [record] := by
  unfold offer
  dsimp only
  by_cases stale :
      (touch now (node.observe change.version.ts) change.place).stale change.place change.version =
      true
  · rw [if_pos stale]
    exact .inl rfl
  · rw [if_neg stale]
    exact .inr rfl

theorem mem_log_offer {config : Config} {now : Nat} {node : Node} {record other : AofRecord}
    {change : Change} (member : other ∈ (node.offer config now record change).log) :
    other ∈ node.log ∨ other = record := by
  rcases offer_log config now node record change with same | grown
  · exact .inl (same ▸ member)
  · rw [grown] at member
    exact (List.mem_append.mp member).imp id List.mem_singleton.mp

/-- A replicated change is made of steps. -/
theorem steps_offer {config : Config} {now : Nat} {node : Node} {record : AofRecord}
    {change : Change} (sound : record.Sound) (single : record.changes = [change]) :
    Steps config now node (node.offer config now record change) := by
  have observed : Steps config now node
      ((node.observe change.version.ts).touch now change.place) :=
    .tail (.single (.observe _)) (.own (shed_touch config now _ _).isLocal)
  unfold offer
  dsimp only
  by_cases stale :
      (touch now (node.observe change.version.ts) change.place).stale change.place change.version =
      true
  · rw [if_pos stale]
    exact observed
  · rw [if_neg stale]
    exact observed.tail (.receive record change
      ⟨sound, single, touch_current now _ _, Bool.not_eq_true _ ▸ stale⟩)

end Node

end SomniumDB
