import Mathlib.Order.Basic
import Mathlib.Data.Int.Notation

/-! # Arithmetic in the range of a type

Each operation is made on the integers and has no result where it leaves the range of its
type. A computation that always has a result never overflows. -/

namespace SomniumDB

/-- The numbers of a machine type. -/
structure Word where
  low : Int
  high : Int

namespace Word

def Holds (word : Word) (value : Int) : Prop :=
  word.low ≤ value ∧ value ≤ word.high

instance (word : Word) (value : Int) : Decidable (word.Holds value) :=
  inferInstanceAs (Decidable (_ ∧ _))

/-- A value of the type, or none: an overflow. -/
def fit (word : Word) (value : Int) : Option Int :=
  if word.Holds value then some value else none

def add (word : Word) (left right : Int) : Option Int :=
  word.fit (left + right)

def sub (word : Word) (left right : Int) : Option Int :=
  word.fit (left - right)

def mul (word : Word) (left right : Int) : Option Int :=
  word.fit (left * right)

def neg (word : Word) (value : Int) : Option Int :=
  word.fit (-value)

/-- The quotient, rounded towards zero. -/
def div (word : Word) (left right : Int) : Option Int :=
  if right = 0 then none else word.fit (left.tdiv right)

variable {word : Word} {value left right : Int}

theorem fit_of_holds (low : word.low ≤ value) (high : value ≤ word.high) :
    word.fit value = some value :=
  if_pos ⟨low, high⟩

end Word

end SomniumDB
