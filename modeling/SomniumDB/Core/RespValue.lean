import SomniumDB.Library.PrefixCode
import SomniumDB.Core.RespCodec

/-! # The values of the protocol

What a reply may be, in the two versions of the protocol, and that a client can tell
where a reply ends. -/

namespace SomniumDB

open Bytes PrefixCode

namespace Resp

def OneLine (text : Bytes) : Prop :=
  13 ∉ text ∧ 10 ∉ text

instance (text : Bytes) : Decidable (OneLine text) :=
  inferInstanceAs (Decidable (_ ∧ _))

def sized (tag : UInt8) (count : Nat) : Bytes :=
  tag :: decimal count ++ crlf

/-- The well-formed values. The null, the map and the push are those that RESP3 adds,
and the absent bulk string is the null of RESP2. -/
inductive Value : Bool → Bytes → Prop
  | status {resp3 : Bool} (text : Bytes) (line : OneLine text) : Value resp3 (43 :: text ++ crlf)
  | error {resp3 : Bool} (text : Bytes) (line : OneLine text) : Value resp3 (45 :: text ++ crlf)
  | integer {resp3 : Bool} (number : Int) : Value resp3 (58 :: decimalInt number ++ crlf)
  | bulk {resp3 : Bool} (text : Bytes) : Value resp3 (bulk text)
  | absent : Value false (ascii "$-1\r\n")
  | array {resp3 : Bool} (values : List Bytes) (each : ∀ value ∈ values, Value resp3 value) :
      Value resp3 (sized 42 values.length ++ values.flatten)
  | null : Value true (ascii "_\r\n")
  | map (pairs : Nat) (values : List Bytes) (even : values.length = 2 * pairs)
      (each : ∀ value ∈ values, Value true value) :
      Value true (sized 37 pairs ++ values.flatten)
  | push (values : List Bytes) (each : ∀ value ∈ values, Value true value) :
      Value true (sized 62 values.length ++ values.flatten)

theorem cr_not_mem_decimalInt (number : Int) : 13 ∉ decimalInt number := by
  unfold decimalInt
  by_cases negative : number < 0
  · rw [if_pos negative]
    intro member
    rcases List.mem_cons.mp member with equal | inside
    · cases equal
    · exact cr_not_mem_decimal _ inside
  · rw [if_neg negative]
    exact cr_not_mem_decimal _

theorem tagged_unique {tag : UInt8} {line other rest more : Bytes} (absent : 13 ∉ line)
    (absentOther : 13 ∉ other)
    (equal : (tag :: line ++ crlf) ++ rest = (tag :: other ++ crlf) ++ more) :
    line = other ∧ rest = more := by
  have lines : line ++ 13 :: (10 :: rest) = other ++ 13 :: (10 :: more) := by
    simpa [crlf] using equal
  rcases line_unique absent absentOther lines with ⟨same, tails⟩
  exact ⟨same, (List.cons.inj tails).2⟩

theorem sized_unique {resp3 : Bool} {tag : UInt8} {count otherCount : Nat}
    {values others : List Bytes} {rest more : Bytes}
    (delimited : ∀ value ∈ values, Delimited (Value resp3) value)
    (each : ∀ other ∈ others, Value resp3 other)
    (lengths : count = otherCount → values.length = others.length)
    (equal : (sized tag count ++ values.flatten) ++ rest =
      (sized tag otherCount ++ others.flatten) ++ more) :
    sized tag count ++ values.flatten = sized tag otherCount ++ others.flatten := by
  rw [List.append_assoc, List.append_assoc] at equal
  rcases tagged_unique (cr_not_mem_decimal count) (cr_not_mem_decimal otherCount) equal with
    ⟨counts, bodies⟩
  rcases decimal_injective counts with rfl
  rcases flatten_unique delimited each (lengths rfl) bodies with ⟨rfl, _⟩
  rfl

theorem Value.tagged {resp3 : Bool} {word : Bytes} (value : Value resp3 word) :
    ∃ tag tail, word = tag :: tail := by
  cases value <;> exact ⟨_, _, rfl⟩

theorem Value.sameTag {resp3 : Bool} {word other rest more : Bytes} {tag : UInt8}
    (value : Value resp3 other) (head : word.head? = some tag)
    (equal : word ++ rest = other ++ more) : other.head? = some tag := by
  rcases value.tagged with ⟨first, tail, rfl⟩
  rcases List.head?_eq_some_iff.mp head with ⟨tail', rfl⟩
  rw [(List.cons.inj equal).1]
  rfl

theorem bulk_unique {text other rest more : Bytes}
    (equal : bulk text ++ rest = bulk other ++ more) : text = other := by
  have lines : (36 :: decimal text.length ++ crlf) ++ (text ++ (crlf ++ rest)) =
      (36 :: decimal other.length ++ crlf) ++ (other ++ (crlf ++ more)) := by
    simpa [bulk] using equal
  rcases tagged_unique (cr_not_mem_decimal _) (cr_not_mem_decimal _) lines with ⟨counts, bodies⟩
  exact (List.append_inj bodies (decimal_injective counts)).1

theorem bulk_ne_absent {text rest more : Bytes}
    (equal : bulk text ++ rest = ascii "$-1\r\n" ++ more) : False := by
  have absent : ascii "$-1\r\n" = 36 :: [45, 49] ++ crlf := by decide
  have lines : (36 :: decimal text.length ++ crlf) ++ (text ++ (crlf ++ rest)) =
      (36 :: [45, 49] ++ crlf) ++ more := by
    simpa [bulk, absent] using equal
  rcases tagged_unique (cr_not_mem_decimal _) (by decide) lines with ⟨counts, _⟩
  have digit := decimal_digits text.length 45 (by rw [counts]; decide)
  exact absurd digit (by decide)

/-- A client can tell where a value ends. -/
theorem prefixFree_value (resp3 : Bool) : PrefixFree (Value resp3) := by
  intro word value
  induction value with
  | status text line =>
      intro other rest more value equal
      have tag := value.sameTag rfl equal
      cases value with
      | status text' line' =>
          rcases tagged_unique line.1 line'.1 equal with ⟨rfl, _⟩
          rfl
      | _ => exact absurd (Option.some.inj tag) (by decide)
  | error text line =>
      intro other rest more value equal
      have tag := value.sameTag rfl equal
      cases value with
      | error text' line' =>
          rcases tagged_unique line.1 line'.1 equal with ⟨rfl, _⟩
          rfl
      | _ => exact absurd (Option.some.inj tag) (by decide)
  | integer number =>
      intro other rest more value equal
      have tag := value.sameTag rfl equal
      cases value with
      | integer number' =>
          rcases tagged_unique (cr_not_mem_decimalInt _) (cr_not_mem_decimalInt _) equal with
            ⟨same, _⟩
          rw [same]
      | _ => exact absurd (Option.some.inj tag) (by decide)
  | bulk text =>
      intro other rest more value equal
      have tag := value.sameTag rfl equal
      cases value with
      | bulk text' => rw [bulk_unique equal]
      | absent => exact (bulk_ne_absent equal).elim
      | _ => exact absurd (Option.some.inj tag) (by decide)
  | absent =>
      intro other rest more value equal
      have tag := value.sameTag rfl equal
      cases value with
      | bulk text => exact (bulk_ne_absent equal.symm).elim
      | absent => rfl
      | _ => exact absurd (Option.some.inj tag) (by decide)
  | array values each induction =>
      intro other rest more value equal
      have tag := value.sameTag rfl equal
      cases value with
      | array others eachOther => exact sized_unique induction eachOther id equal
      | _ => exact absurd (Option.some.inj tag) (by decide)
  | null =>
      intro other rest more value equal
      have tag := value.sameTag rfl equal
      cases value with
      | null => rfl
      | _ => exact absurd (Option.some.inj tag) (by decide)
  | map pairs values even each induction =>
      intro other rest more value equal
      have tag := value.sameTag rfl equal
      cases value with
      | map pairs' others even' eachOther =>
          refine sized_unique induction eachOther (fun same => ?_) equal
          rw [even, even', same]
      | _ => exact absurd (Option.some.inj tag) (by decide)
  | push values each induction =>
      intro other rest more value equal
      have tag := value.sameTag rfl equal
      cases value with
      | push others eachOther => exact sized_unique induction eachOther id equal
      | _ => exact absurd (Option.some.inj tag) (by decide)

/-! ## Lines -/

/-- The text of a line of the protocol, between its tag and its end. -/
def lineText (reply : Bytes) : Bytes :=
  reply.tail.take (reply.length - 3)

def ErrorLine (reply : Bytes) : Prop :=
  reply = 45 :: lineText reply ++ crlf ∧ OneLine (lineText reply)

def StatusLine (reply : Bytes) : Prop :=
  reply = 43 :: lineText reply ++ crlf ∧ OneLine (lineText reply)

instance (reply : Bytes) : Decidable (ErrorLine reply) :=
  inferInstanceAs (Decidable (_ ∧ _))

instance (reply : Bytes) : Decidable (StatusLine reply) :=
  inferInstanceAs (Decidable (_ ∧ _))

theorem ErrorLine.value {resp3 : Bool} {reply : Bytes} (line : ErrorLine reply) :
    Value resp3 reply := by
  rw [line.1]
  exact .error _ line.2

theorem ErrorLine.head {reply : Bytes} (line : ErrorLine reply) : reply.head? = some 45 := by
  rw [line.1]
  rfl

theorem StatusLine.value {resp3 : Bool} {reply : Bytes} (line : StatusLine reply) :
    Value resp3 reply := by
  rw [line.1]
  exact .status _ line.2

theorem OneLine.append {front back : Bytes} (left : OneLine front) (right : OneLine back) :
    OneLine (front ++ back) := by
  unfold OneLine at *
  simp [left, right]

theorem oneLine_of_append {front back : Bytes} (line : OneLine (front ++ back)) : OneLine back := by
  unfold OneLine at *
  simp only [List.mem_append, not_or] at line
  exact ⟨line.1.2, line.2.2⟩

theorem oneLine_of_upper {text : Bytes} (line : OneLine (upper text)) : OneLine text := by
  constructor
  · intro member
    exact line.1 (List.mem_map.mpr ⟨13, member, by decide⟩)
  · intro member
    exact line.2 (List.mem_map.mpr ⟨10, member, by decide⟩)

/-- An error line that repeats a text is a value exactly when the text has no line
break. -/
theorem value_error_iff {resp3 : Bool} {front text : Bytes} (line : OneLine front) :
    Value resp3 (45 :: (front ++ text) ++ crlf) ↔ OneLine text := by
  constructor
  · intro value
    have tag : (45 :: (front ++ text) ++ crlf).head? = some 45 := rfl
    generalize whole : 45 :: (front ++ text) ++ crlf = reply at value tag
    cases value with
    | error shown line' =>
        have same : front ++ text = shown :=
          List.append_cancel_right (List.cons.inj whole).2
        exact oneLine_of_append (same ▸ line')
    | _ => exact absurd (Option.some.inj tag) (by decide)
  · intro here
    exact .error _ (line.append here)

theorem value_array {resp3 : Bool} {count : Nat} {body : Bytes}
    (holds : Holds (Value resp3) count body) : Value resp3 (sized 42 count ++ body) := by
  rcases holds with ⟨values, rfl, each, rfl⟩
  exact .array values each

end Resp

end SomniumDB
