import Mathlib.Data.List.Basic

/-! # Prefix-free codes

Words of which none begins another: a sequence of them, written one after the other, can
be read in one way only. -/

namespace SomniumDB

namespace PrefixCode

variable {α : Type u} {code : List α → Prop}

/-- A word is the only one of the code with which a text that begins with it begins. -/
def Delimited (code : List α → Prop) (word : List α) : Prop :=
  ∀ other rest more, code other → word ++ rest = other ++ more → word = other

/-- No word of the code begins another. -/
def PrefixFree (code : List α → Prop) : Prop :=
  ∀ word, code word → Delimited code word

/-- A text holds words of the code, `count` of them and nothing else. -/
def Holds (code : List α → Prop) (count : Nat) (text : List α) : Prop :=
  ∃ words : List (List α), words.length = count ∧ (∀ word ∈ words, code word) ∧
    words.flatten = text

theorem Holds.one {word : List α} (coded : code word) : Holds code 1 word :=
  ⟨[word], rfl, by simpa using coded, List.flatten_singleton⟩

theorem Holds.append {front back : Nat} {left right : List α} (first : Holds code front left)
    (second : Holds code back right) : Holds code (front + back) (left ++ right) := by
  rcases first with ⟨words, rfl, each, rfl⟩
  rcases second with ⟨others, rfl, eachOther, rfl⟩
  refine ⟨words ++ others, List.length_append, ?_, List.flatten_append⟩
  intro word member
  rcases List.mem_append.mp member with here | there
  · exact each word here
  · exact eachOther word there

theorem holds_one {text : List α} : Holds code 1 text ↔ code text := by
  constructor
  · rintro ⟨words, length, each, rfl⟩
    rcases List.length_eq_one_iff.mp length with ⟨word, rfl⟩
    rw [List.flatten_singleton]
    exact each word List.mem_cons_self
  · exact Holds.one

/-- Words that are read one after the other are those that were written. -/
theorem flatten_unique {words others : List (List α)} {rest more : List α}
    (delimited : ∀ word ∈ words, Delimited code word) (each : ∀ other ∈ others, code other)
    (lengths : words.length = others.length)
    (equal : words.flatten ++ rest = others.flatten ++ more) : words = others ∧ rest = more := by
  induction words generalizing others with
  | nil =>
      obtain rfl : others = [] := List.length_eq_zero_iff.mp lengths.symm
      exact ⟨rfl, equal⟩
  | cons word words induction =>
      cases others with
      | nil => simp at lengths
      | cons other others =>
          rw [List.flatten_cons, List.flatten_cons, List.append_assoc, List.append_assoc] at equal
          rcases delimited word List.mem_cons_self other _ _
            (each other List.mem_cons_self) equal with rfl
          rcases induction
            (fun left member => delimited left (List.mem_cons_of_mem _ member))
            (fun right member => each right (List.mem_cons_of_mem _ member))
            (Nat.succ.inj lengths) (List.append_cancel_left equal) with ⟨rfl, same⟩
          exact ⟨rfl, same⟩

/-- A text that holds as many words as another one begins with is that other one. -/
theorem Holds.delimited (free : PrefixFree code) {count : Nat} {text other rest more : List α}
    (left : Holds code count text) (right : Holds code count other)
    (equal : text ++ rest = other ++ more) : text = other ∧ rest = more := by
  rcases left with ⟨words, lengths, each, rfl⟩
  rcases right with ⟨others, otherLengths, eachOther, rfl⟩
  rcases flatten_unique (fun word member => free word (each word member)) eachOther
    (lengths.trans otherLengths.symm) equal with ⟨rfl, same⟩
  exact ⟨rfl, same⟩

/-- A line ends at the first terminator. -/
theorem line_unique {stop : α} {line other rest more : List α} (absent : stop ∉ line)
    (absentOther : stop ∉ other) (equal : line ++ stop :: rest = other ++ stop :: more) :
    line = other ∧ rest = more := by
  rcases List.append_eq_append_iff.mp equal with ⟨gap, longer, tails⟩ | ⟨gap, longer, tails⟩
  · cases gap with
    | nil => exact ⟨by simpa using longer.symm, (List.cons.inj tails).2⟩
    | cons first gap =>
        rcases (List.cons.inj tails).1 with rfl
        exact absurd (by simp [longer]) absentOther
  · cases gap with
    | nil => exact ⟨by simpa using longer, (List.cons.inj tails).2.symm⟩
    | cons first gap =>
        rcases (List.cons.inj tails).1 with rfl
        exact absurd (by simp [longer]) absent

end PrefixCode

end SomniumDB
