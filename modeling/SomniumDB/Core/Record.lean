import Mathlib.Data.Prod.Lex
import SomniumDB.Library.Bytes
import SomniumDB.Core.Hlc

/-! # Records and versions (`record.h`, `database.h`) -/

namespace SomniumDB

/-- A CRDT version: timestamp first, node id second. -/
@[ext] structure Version where
  ts : Nat
  node : Nat
  deriving DecidableEq, Repr

namespace Version

def key (version : Version) : Nat ×ₗ Nat := toLex (version.ts, version.node)

theorem key_injective : Function.Injective key := by
  intro left right equal
  have pairs : (left.ts, left.node) = (right.ts, right.node) := equal
  exact Version.ext (congrArg Prod.fst pairs) (congrArg Prod.snd pairs)

instance : LinearOrder Version := LinearOrder.lift' key key_injective

theorem le_iff (left right : Version) :
    left ≤ right ↔ left.ts < right.ts ∨ left.ts = right.ts ∧ left.node ≤ right.node :=
  Prod.Lex.toLex_le_toLex

theorem lt_iff (left right : Version) :
    left < right ↔ left.ts < right.ts ∨ left.ts = right.ts ∧ left.node < right.node :=
  Prod.Lex.toLex_lt_toLex

theorem ts_le_of_le {left right : Version} (le : left ≤ right) : left.ts ≤ right.ts := by
  rcases (le_iff left right).mp le with below | ⟨equal, _⟩
  · exact Nat.le_of_lt below
  · exact Nat.le_of_eq equal

theorem lt_of_ts_lt {left right : Version} (below : left.ts < right.ts) : left < right :=
  (lt_iff left right).mpr (.inl below)

end Version

/-- A stored value with its absolute deadline (zero: none) and its version. -/
@[ext] structure Record where
  value : Bytes := []
  expireAt : Int := 0
  timestampMs : Nat := 0
  nodeId : Nat := 1
  deriving DecidableEq, Repr

namespace Record

def expired (record : Record) (now : Nat) : Bool :=
  decide (0 < record.expireAt) && decide (record.expireAt < (now : Int))

def version (record : Record) : Version :=
  ⟨record.timestampMs, record.nodeId⟩

/-- Loading a snapshot and replaying the log move old timestamps to the
hybrid format. -/
def normalized (record : Record) : Record :=
  { record with timestampMs := Hlc.normalize record.timestampMs }

theorem expired_mono {record : Record} {now later : Nat} (le : now ≤ later)
    (past : record.expired now = true) : record.expired later = true := by
  simp only [expired, Bool.and_eq_true, decide_eq_true_eq] at past ⊢
  omega

end Record

end SomniumDB
