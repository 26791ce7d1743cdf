import Mathlib.Data.List.Infix

/-! # Along a run

A run folds a step over a list of inputs. A property can be asked of every state that a
run comes to, or of every state together with the input that meets it there. -/

namespace SomniumDB.Runs

variable {σ : Type u} {χ : Type v} {step : σ → χ → σ}

/-- What every state of the run has, the first and the last included. -/
def Throughout (step : σ → χ → σ) (holds : σ → Prop) (start : σ) (inputs : List χ) : Prop :=
  ∀ made, made <+: inputs → holds (made.foldl step start)

/-- What every input of the run meets. -/
def Always (step : σ → χ → σ) (holds : σ → χ → Prop) (start : σ) (inputs : List χ) : Prop :=
  ∀ made input, made ++ [input] <+: inputs → holds (made.foldl step start) input

variable {holds : σ → Prop} {meets : σ → χ → Prop} {start : σ}

theorem throughout_nil : Throughout step holds start [] ↔ holds start := by
  refine ⟨fun along => along [] List.prefix_rfl, fun here made isPrefix => ?_⟩
  rw [List.prefix_nil.mp isPrefix]
  exact here

theorem throughout_cons (input : χ) (inputs : List χ) :
    Throughout step holds start (input :: inputs) ↔
      holds start ∧ Throughout step holds (step start input) inputs := by
  constructor
  · intro along
    refine ⟨along [] List.nil_prefix, fun made isPrefix => ?_⟩
    exact along (input :: made) (List.cons_prefix_cons.mpr ⟨rfl, isPrefix⟩)
  · rintro ⟨here, along⟩ made isPrefix
    rcases List.prefix_cons_iff.mp isPrefix with rfl | ⟨rest, rfl, later⟩
    · exact here
    · exact along rest later

theorem always_nil : Always step meets start [] := by
  intro made input isPrefix
  exact absurd (List.prefix_nil.mp isPrefix) (by simp)

theorem always_cons (input : χ) (inputs : List χ) :
    Always step meets start (input :: inputs) ↔
      meets start input ∧ Always step meets (step start input) inputs := by
  constructor
  · intro along
    refine ⟨along [] input (List.cons_prefix_cons.mpr ⟨rfl, List.nil_prefix⟩), ?_⟩
    intro made next isPrefix
    exact along (input :: made) next (List.cons_prefix_cons.mpr ⟨rfl, isPrefix⟩)
  · rintro ⟨here, along⟩ made next isPrefix
    cases made with
    | nil =>
        obtain rfl : next = input := (List.cons_prefix_cons.mp isPrefix).1
        exact here
    | cons first rest =>
        rcases List.cons_prefix_cons.mp isPrefix with ⟨rfl, later⟩
        exact along rest next later

theorem always_append (front back : List χ) :
    Always step meets start (front ++ back) ↔
      Always step meets start front ∧ Always step meets (front.foldl step start) back := by
  induction front generalizing start with
  | nil => exact (and_iff_right always_nil).symm
  | cons first rest induction =>
      rw [List.cons_append, always_cons, always_cons, induction, List.foldl_cons, and_assoc]

/-- A condition that is exact for one step is exact for a run: under an invariant, it holds
at every step just when every state is as it should be and so is every step. -/
theorem always_iff {invariant : σ → Prop} {fine : σ → χ → Prop}
    (preserved : ∀ state input, invariant state → invariant (step state input))
    (exact : ∀ state input, invariant state → holds state →
      (meets state input ↔ holds (step state input) ∧ fine state input))
    (steady : invariant start) (first : holds start) (inputs : List χ) :
    Always step meets start inputs ↔
      Throughout step holds start inputs ∧ Always step fine start inputs := by
  induction inputs generalizing start with
  | nil => exact iff_of_true always_nil ⟨throughout_nil.mpr first, always_nil⟩
  | cons input inputs induction =>
      have here := exact start input steady first
      have later := fun next => @induction (step start input) (preserved start input steady) next
      rw [always_cons, always_cons, throughout_cons, here]
      constructor
      · rintro ⟨⟨next, good⟩, along⟩
        rcases (later next).mp along with ⟨states, steps⟩
        exact ⟨⟨first, states⟩, good, steps⟩
      · rintro ⟨⟨-, states⟩, good, steps⟩
        have next : holds (step start input) := states [] List.nil_prefix
        exact ⟨⟨next, good⟩, (later next).mpr ⟨states, steps⟩⟩

end SomniumDB.Runs
