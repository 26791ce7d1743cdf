import SomniumDB.Abstract.Logged
import SomniumDB.Core.ErrorLines
import SomniumDB.Properties.Numbers

/-! # The options of SET and the deadlines

The options that `SET` accepts are the texts of a grammar, and the deadline is what the
option says. The same computation in machine words, for `SET` and for `EXPIRE`, never
overflows. -/

namespace SomniumDB

open Bytes FsUtil

namespace Db

/-! ## The grammar of the options -/

/-- An option of `SET`. -/
inductive Clause
  | nx
  | xx
  | ex (n : Int)
  | px (n : Int)
  deriving DecidableEq

namespace Clause

/-- How an option is written, in any letter case. -/
def WrittenAs : Clause → List Bytes → Prop
  | nx, texts => ∃ name, texts = [name] ∧ upper name = ascii "NX"
  | xx, texts => ∃ name, texts = [name] ∧ upper name = ascii "XX"
  | ex n, texts => ∃ name amount, texts = [name, amount] ∧ upper name = ascii "EX" ∧
      IsSigned amount n
  | px n, texts => ∃ name amount, texts = [name, amount] ∧ upper name = ascii "PX" ∧
      IsSigned amount n

def condition : Clause → Bool
  | nx => true
  | xx => true
  | _ => false

/-- The amount of a deadline, and what it counts in milliseconds. -/
def amount : Clause → Option (Int × Int)
  | ex n => some (n, 1000)
  | px n => some (n, 1)
  | _ => none

end Clause

/-- The options one after another. -/
inductive Written : List Clause → List Bytes → Prop
  | nil : Written [] []
  | cons {clause clauses texts rest} (first : clause.WrittenAs texts)
      (others : Written clauses rest) : Written (clause :: clauses) (texts ++ rest)

/-- At most one condition and at most one deadline, which lies ahead and within the range
of the clock. -/
structure Admissible (now : Nat) (clauses : List Clause) : Prop where
  conditions : clauses.countP Clause.condition ≤ 1
  deadlines : clauses.countP (fun clause => clause.amount.isSome) ≤ 1
  amounts : ∀ clause ∈ clauses, ∀ n scale, clause.amount = some (n, scale) →
    0 < n ∧ now + n * scale ≤ llongMax

/-- What the options say, after those that have been read. -/
def collect (now : Nat) (read : SetOptions) (clauses : List Clause) : SetOptions where
  nx := read.nx || clauses.contains .nx
  xx := read.xx || clauses.contains .xx
  expireAt := ((clauses.findSome? Clause.amount).map fun (n, scale) => now + n * scale).getD
    read.expireAt

/-! ## The loop accepts what the grammar says -/

/-- The options may follow those that have been read. -/
structure MayFollow (now : Nat) (read : SetOptions) (clauses : List Clause) : Prop where
  conditions : clauses.countP Clause.condition + (if read.nx || read.xx then 1 else 0) ≤ 1
  deadlines : clauses.countP (fun clause => clause.amount.isSome) +
    (if read.expireAt = 0 then 0 else 1) ≤ 1
  amounts : ∀ clause ∈ clauses, ∀ n scale, clause.amount = some (n, scale) →
    0 < n ∧ now + n * scale ≤ llongMax

theorem mayFollow_start {now : Nat} {clauses : List Clause} :
    MayFollow now {} clauses ↔ Admissible now clauses :=
  ⟨fun follow => ⟨follow.conditions, follow.deadlines, follow.amounts⟩,
    fun admissible => ⟨admissible.conditions, admissible.deadlines, admissible.amounts⟩⟩

/-- How a deadline is written. -/
theorem Clause.WrittenAs.deadline {clause : Clause} {texts : List Bytes} {n scale : Int}
    (written : clause.WrittenAs texts) (amount : clause.amount = some (n, scale)) :
    ∃ name text, texts = [name, text] ∧ IsSigned text n ∧
      (upper name = ascii "EX" ∧ scale = 1000 ∨ upper name = ascii "PX" ∧ scale = 1) := by
  cases clause with
  | nx => cases amount
  | xx => cases amount
  | ex other =>
      cases amount
      rcases written with ⟨name, text, same, named, signed⟩
      exact ⟨name, text, same, signed, .inl ⟨named, rfl⟩⟩
  | px other =>
      cases amount
      rcases written with ⟨name, text, same, named, signed⟩
      exact ⟨name, text, same, signed, .inr ⟨named, rfl⟩⟩

/-- A deadline ahead of the clock passes the check of the loop, which divides. -/
theorem amount_fits {now : Nat} {n scale : Int} (unit : scale = 1 ∨ scale = 1000)
    (positive : 0 < n) :
    n ≤ (llongMax - now).tdiv scale ↔ now + n * scale ≤ llongMax := by
  refine ⟨fun fits => (deadline_fits unit positive fits).2, fun within => ?_⟩
  have scalePositive : 0 < scale := by omega
  have product : 0 < n * scale := Int.mul_pos positive scalePositive
  rw [Int.tdiv_eq_ediv_of_nonneg (by omega), Int.le_ediv_iff_mul_le scalePositive]
  omega

theorem setOptions_condition {now : Nat} {read : SetOptions} {name : Bytes} (others : List Bytes)
    (named : upper name = ascii "NX" ∨ upper name = ascii "XX")
    (unset : read.nx = false ∧ read.xx = false) :
    setOptions now read (name :: others) =
      setOptions now
        { read with nx := upper name = ascii "NX", xx := upper name = ascii "XX" } others := by
  rw [setOptions.eq_def]
  simp only [named, unset, Bool.not_false, and_self, if_true]

theorem setOptions_deadline {now : Nat} {read : SetOptions} {name text : Bytes} {n scale : Int}
    (others : List Bytes)
    (named : upper name = ascii "EX" ∧ scale = 1000 ∨ upper name = ascii "PX" ∧ scale = 1)
    (signed : IsSigned text n) (positive : 0 < n) (within : now + n * scale ≤ llongMax)
    (unset : read.expireAt = 0) :
    setOptions now read (name :: text :: others) =
      setOptions now { read with expireAt := now + n * scale } others := by
  have unit : scale = 1 ∨ scale = 1000 := by
    rcases named with ⟨-, same⟩ | ⟨-, same⟩
    · exact .inr same
    · exact .inl same
  have fits := (amount_fits unit positive).mpr within
  have least : n * 1 ≤ n * scale := by
    refine Int.mul_le_mul_of_nonneg_left ?_ positive.le
    omega
  have range : llongMin ≤ n ∧ n ≤ llongMax := by
    have bounds : llongMin = -(2 ^ 63) := rfl
    omega
  have parsed := (parseI64_eq_some_iff text n).mpr ⟨signed, range⟩
  have accepted : ¬ (n ≤ 0 ∨ (llongMax - now).tdiv scale < n) := by omega
  have distinct : ascii "EX" ≠ ascii "NX" ∧ ascii "EX" ≠ ascii "XX" ∧ ascii "PX" ≠ ascii "NX" ∧
      ascii "PX" ≠ ascii "XX" ∧ ascii "PX" ≠ ascii "EX" := by
    decide
  rcases distinct with ⟨exNx, exXx, pxNx, pxXx, pxEx⟩
  rw [setOptions]
  rcases named with ⟨named, rfl⟩ | ⟨named, rfl⟩
  · simp only [named, exNx, exXx, or_self, false_and, if_false, unset, true_or, and_self, if_true,
      parsed, if_neg accepted]
  · simp only [named, pxNx, pxXx, pxEx, or_self, false_and, if_false, unset, or_true, and_self,
      if_true, parsed, if_neg accepted]

theorem setOptions_of_written {now : Nat} {clauses : List Clause} {texts : List Bytes}
    (written : Written clauses texts) {read : SetOptions} (follow : MayFollow now read clauses) :
    setOptions now read texts = .ok (collect now read clauses) := by
  induction written generalizing read with
  | nil => simp [setOptions, collect]
  | @cons clause clauses texts rest first others induction =>
      rcases follow with ⟨conditions, deadlines, amounts⟩
      have later := fun other member => amounts other (List.mem_cons_of_mem clause member)
      rw [List.countP_cons] at conditions deadlines
      cases amount : clause.amount with
      | none =>
          -- one of the conditions
          have isCondition : clause.condition = true := by
            cases clause with
            | nx => rfl
            | xx => rfl
            | ex n => cases amount
            | px n => cases amount
          simp only [isCondition, if_true] at conditions
          simp only [amount, Option.isSome_none, Bool.false_eq_true, if_false,
            Nat.add_zero] at deadlines
          have unset : read.nx = false ∧ read.xx = false := by
            rw [← Bool.or_eq_false_iff]
            refine Bool.eq_false_of_not_eq_true fun set => ?_
            rw [if_pos set] at conditions
            omega
          have none : clauses.countP Clause.condition = 0 := by omega
          have distinct : ascii "NX" ≠ ascii "XX" := by decide
          cases clause with
          | nx =>
              rcases first with ⟨name, rfl, named⟩
              change setOptions now read (name :: rest) = _
              rw [setOptions_condition rest (.inl named) unset, induction]
              · simp [collect, named, distinct, unset, Clause.amount, List.findSome?_cons]
              · exact ⟨by simp [named, none], deadlines, later⟩
          | xx =>
              rcases first with ⟨name, rfl, named⟩
              change setOptions now read (name :: rest) = _
              rw [setOptions_condition rest (.inr named) unset, induction]
              · simp [collect, named, distinct.symm, unset, Clause.amount, List.findSome?_cons]
              · exact ⟨by simp [named, none], deadlines, later⟩
          | ex n => cases amount
          | px n => cases amount
      | some deadline =>
          rcases deadline with ⟨n, scale⟩
          rcases amounts clause List.mem_cons_self n scale amount with ⟨positive, within⟩
          rcases first.deadline amount with ⟨name, text, rfl, signed, named⟩
          simp only [amount, Option.isSome_some, if_true] at deadlines
          have unset : read.expireAt = 0 := by
            by_contra set
            rw [if_neg set] at deadlines
            omega
          have none : clauses.countP (fun clause => clause.amount.isSome) = 0 := by omega
          have isDeadline : clause.condition = false ∧ clause ≠ .nx ∧ clause ≠ .xx := by
            cases clause with
            | nx => cases amount
            | xx => cases amount
            | ex n => exact ⟨rfl, Clause.noConfusion, Clause.noConfusion⟩
            | px n => exact ⟨rfl, Clause.noConfusion, Clause.noConfusion⟩
          simp only [isDeadline.1, Bool.false_eq_true, if_false, Nat.add_zero] at conditions
          change setOptions now read (name :: text :: rest) = _
          rw [setOptions_deadline rest named signed positive within unset, induction]
          · have silent : clauses.findSome? Clause.amount = Option.none := by
              refine List.findSome?_eq_none_iff.mpr fun other member => ?_
              have unit := List.countP_eq_zero.mp none other member
              exact Option.not_isSome_iff_eq_none.mp unit
            simp [collect, amount, silent, isDeadline.2.1.symm, isDeadline.2.2.symm]
          · refine ⟨conditions, ?_, later⟩
            rw [none]
            split <;> decide

theorem written_of_setOptions {now : Nat} {read options : SetOptions} {texts : List Bytes}
    (accepted : setOptions now read texts = .ok options) (start : 0 ≤ read.expireAt) :
    ∃ clauses, Written clauses texts ∧ MayFollow now read clauses := by
  fun_induction setOptions now read texts with
  | case1 read =>
      refine ⟨[], .nil, ?_, ?_, fun _ member => absurd member List.not_mem_nil⟩
      · cases read.nx || read.xx <;> simp
      · by_cases unset : read.expireAt = 0
        · rw [if_pos unset]
          simp
        · rw [if_neg unset]
          simp
  | case2 read option rest opt first induction =>
      rcases induction accepted start with ⟨clauses, written, conditions, deadlines, amounts⟩
      have chosen : opt = ascii "NX" ∨ opt = ascii "XX" := first.1
      have unset : read.nx = false ∧ read.xx = false := by simpa using first.2
      have set : (decide (opt = ascii "NX") || decide (opt = ascii "XX")) = true := by
        simpa using chosen
      simp only [set, if_true] at conditions
      have follow (clause : Clause) (isCondition : clause.condition = true)
          (amount : clause.amount = none) : MayFollow now read (clause :: clauses) := by
        refine ⟨?_, ?_, List.forall_mem_cons.mpr ⟨fun n scale found => ?_, amounts⟩⟩
        · rw [List.countP_cons, if_pos isCondition, unset.1, unset.2]
          exact conditions
        · rw [List.countP_cons, amount]
          exact deadlines
        · rw [amount] at found
          cases found
      rcases chosen with named | named
      · have writtenAs : Clause.nx.WrittenAs [option] := ⟨option, rfl, named⟩
        exact ⟨.nx :: clauses, .cons writtenAs written, follow .nx rfl rfl⟩
      · have writtenAs : Clause.xx.WrittenAs [option] := ⟨option, rfl, named⟩
        exact ⟨.xx :: clauses, .cons writtenAs written, follow .xx rfl rfl⟩
  | case6 read option opt _ amount others first scale n parsed valid induction =>
      have unit : scale = 1 ∨ scale = 1000 := by
        unfold scale
        by_cases isEx : opt = ascii "EX"
        · rw [if_pos isEx]
          simp
        · rw [if_neg isEx]
          simp
      rw [not_or, Int.not_le, Int.not_lt] at valid
      have within := (amount_fits unit valid.1).mp valid.2
      have ahead : 0 < now + n * scale := (deadline_fits unit valid.1 valid.2).1
      have signed := ((parseI64_eq_some_iff amount n).mp parsed).1
      rcases induction accepted ahead.le with ⟨clauses, written, conditions, deadlines, amounts⟩
      simp only [ahead.ne', if_false] at deadlines
      have follow (clause : Clause) (isDeadline : clause.condition = false)
          (found : clause.amount = some (n, scale)) : MayFollow now read (clause :: clauses) := by
        refine ⟨?_, ?_, List.forall_mem_cons.mpr ⟨fun other unit same => ?_, amounts⟩⟩
        · rw [List.countP_cons, isDeadline, if_neg Bool.false_ne_true]
          exact conditions
        · simp only [List.countP_cons, found, Option.isSome_some, if_true, first.2]
          exact deadlines
        · rw [found] at same
          cases same
          exact ⟨valid.1, within⟩
      by_cases seconds : opt = ascii "EX"
      · have thousand : scale = 1000 := if_pos seconds
        have writtenAs : (Clause.ex n).WrittenAs [option, amount] :=
          ⟨option, amount, rfl, seconds, signed⟩
        exact ⟨.ex n :: clauses, .cons writtenAs written,
          follow (.ex n) rfl (by rw [thousand]; rfl)⟩
      · have one : scale = 1 := if_neg seconds
        have writtenAs : (Clause.px n).WrittenAs [option, amount] :=
          ⟨option, amount, rfl, first.1.resolve_left seconds, signed⟩
        exact ⟨.px n :: clauses, .cons writtenAs written, follow (.px n) rfl (by rw [one]; rfl)⟩
  | _ => cases accepted

/-- The loop accepts exactly the texts of the grammar, and reads them as what they say. -/
theorem setOptions_ok_iff (now : Nat) (texts : List Bytes) (options : SetOptions) :
    setOptions now {} texts = .ok options ↔
      ∃ clauses, Written clauses texts ∧ Admissible now clauses ∧
        options = collect now {} clauses := by
  constructor
  · intro accepted
    rcases written_of_setOptions accepted (Int.le_refl 0) with ⟨clauses, written, follow⟩
    refine ⟨clauses, written, mayFollow_start.mp follow, ?_⟩
    rw [setOptions_of_written written follow] at accepted
    exact (Except.ok.inj accepted).symm
  · rintro ⟨clauses, written, admissible, rfl⟩
    exact setOptions_of_written written (mayFollow_start.mpr admissible)

theorem collect_deadline {now : Nat} {clauses : List Clause} (admissible : Admissible now clauses)
    {clause : Clause} (member : clause ∈ clauses) {n scale : Int}
    (amount : clause.amount = some (n, scale)) :
    (collect now {} clauses).expireAt = now + n * scale := by
  have only := admissible.deadlines
  rw [List.countP_eq_length_filter] at only
  have here : clause ∈ clauses.filter fun clause => clause.amount.isSome :=
    List.mem_filter.mpr ⟨member, by rw [amount]; rfl⟩
  cases found : clauses.findSome? Clause.amount with
  | none =>
      rw [List.findSome?_eq_none_iff.mp found clause member] at amount
      cases amount
  | some other =>
      rcases List.exists_of_findSome?_eq_some found with ⟨first, inList, same⟩
      have there : first ∈ clauses.filter fun clause => clause.amount.isSome :=
        List.mem_filter.mpr ⟨inList, by rw [same]; rfl⟩
      have equal : first = clause := by
        generalize clauses.filter _ = chosen at only here there
        cases chosen with
        | nil => cases here
        | cons head rest =>
            have empty : rest = [] := List.length_eq_zero_iff.mp (by
              rw [List.length_cons] at only
              omega)
            rw [empty] at here there
            exact (List.mem_singleton.mp there).trans (List.mem_singleton.mp here).symm
      rw [equal, amount] at same
      cases same
      simp only [collect, found, Option.map_some, Option.getD_some]

/-- A deadline lies ahead; there is none exactly when no option asks for one. -/
theorem collect_expireAt {now : Nat} {clauses : List Clause} (admissible : Admissible now clauses) :
    ((collect now {} clauses).expireAt = 0 ↔ ∀ clause ∈ clauses, clause.amount = none) ∧
      ∀ clause ∈ clauses, ∀ n scale, clause.amount = some (n, scale) →
        (collect now {} clauses).expireAt = now + n * scale ∧
          now < (collect now {} clauses).expireAt := by
  have ahead : ∀ clause ∈ clauses, ∀ n scale, clause.amount = some (n, scale) →
      (collect now {} clauses).expireAt = now + n * scale ∧
        now < (collect now {} clauses).expireAt := by
    intro clause member n scale amount
    have deadline := collect_deadline admissible member amount
    have positive := (admissible.amounts clause member n scale amount).1
    have scalePositive : 0 < scale := by
      cases clause with
      | nx => cases amount
      | xx => cases amount
      | ex other => cases amount; decide
      | px other => cases amount; decide
    have product := Int.mul_pos positive scalePositive
    exact ⟨deadline, by omega⟩
  refine ⟨⟨fun zero clause member => ?_, fun none => ?_⟩, ahead⟩
  · cases amount : clause.amount with
    | none => rfl
    | some deadline =>
        have later := (ahead clause member deadline.1 deadline.2 amount).2
        omega
  · have silent := List.findSome?_eq_none_iff.mpr none
    simp only [collect, silent, Option.map_none, Option.getD_none]

/-! ## The deadlines in machine words -/

/-- The deadline in the option loop of `handle_set`: an outer `none` is an overflow, an inner
one a refusal. -/
def setDeadlineWords (now n scale : Int) : Option (Option Int) :=
  if n ≤ 0 then some none
  else do
    let room ← longLong.sub llongMax now
    let limit ← longLong.div room scale
    if limit < n then some none
    else
      let product ← longLong.mul n scale
      let expireAt ← longLong.add now product
      some (some expireAt)

/-- The deadline of `handle_expire`. -/
def expireDeadlineWords (now n scale : Int) : Option (Option Int) := do
  let low ← longLong.div llongMin scale
  if n < low then some none
  else
    let room ← longLong.sub llongMax now
    let limit ← longLong.div room scale
    if limit < n then some none
    else
      let product ← longLong.mul n scale
      let expireAt ← longLong.add now product
      some (some expireAt)

section Words

variable {now : Nat} {n scale : Int}

theorem longLong_fit {value : Int} (low : llongMin ≤ value) (high : value ≤ llongMax) :
    longLong.fit value = some value :=
  Word.fit_of_holds low high

/-- The space ahead of the clock is a number of the type. -/
theorem room_fits (reading : (now : Int) ≤ llongMax) (unit : scale = 1 ∨ scale = 1000) :
    longLong.sub llongMax now = some (llongMax - now) ∧
      longLong.div (llongMax - now) scale = some ((llongMax - now).tdiv scale) := by
  have bounds : llongMin = -(2 ^ 63) ∧ llongMax = 2 ^ 63 - 1 := ⟨rfl, rfl⟩
  have positive : 0 < scale := by omega
  refine ⟨longLong_fit (by omega) (by omega), ?_⟩
  have quotient : (llongMax - now).tdiv scale = (llongMax - now) / scale :=
    Int.tdiv_eq_ediv_of_nonneg (by omega)
  have least : 0 ≤ (llongMax - now) / scale := Int.ediv_nonneg (by omega) positive.le
  have most : (llongMax - now) / scale ≤ llongMax - now := Int.ediv_le_self _ (by omega)
  unfold Word.div
  rw [if_neg positive.ne', quotient]
  exact longLong_fit (by omega) (by omega)

/-- The sum is within the type when the product is not below it. -/
theorem deadline_words (low : llongMin ≤ n * scale) (high : now + n * scale ≤ llongMax) :
    longLong.mul n scale = some (n * scale) ∧
      longLong.add now (n * scale) = some (now + n * scale) := by
  have bounds : llongMin = -(2 ^ 63) ∧ llongMax = 2 ^ 63 - 1 := ⟨rfl, rfl⟩
  exact ⟨longLong_fit low (by omega), longLong_fit (by omega) high⟩

theorem setDeadlineWords_eq (reading : (now : Int) ≤ llongMax) (unit : scale = 1 ∨ scale = 1000) :
    setDeadlineWords now n scale =
      some (if 0 < n ∧ now + n * scale ≤ llongMax then some (now + n * scale) else none) := by
  rcases room_fits reading unit with ⟨room, limit⟩
  unfold setDeadlineWords
  by_cases refused : n ≤ 0
  · rw [if_pos refused]
    rw [if_neg fun accepted => absurd accepted.1 (Int.not_lt.mpr refused)]
  · rw [if_neg refused]
    rw [Int.not_le] at refused
    simp only [room, limit, Option.bind_eq_bind, Option.bind_some]
    by_cases large : (llongMax - (now : Int)).tdiv scale < n
    · rw [if_pos large]
      rw [if_neg fun accepted => absurd ((amount_fits unit refused).mpr accepted.2)
        (Int.not_le.mpr large)]
    · rw [if_neg large]
      have within := (amount_fits unit refused).mp (Int.not_lt.mp large)
      have bound : llongMin = -(2 ^ 63) := rfl
      have product : 0 < n * scale := Int.mul_pos refused (by omega)
      rcases deadline_words (n := n) (by omega) within with ⟨multiplied, added⟩
      simp only [multiplied, added, Option.bind_some]
      rw [if_pos ⟨refused, within⟩]

theorem expire_fits (reading : (now : Int) ≤ llongMax) (unit : scale = 1 ∨ scale = 1000) :
    (¬ n < llongMin.tdiv scale ∧ ¬ (llongMax - now).tdiv scale < n) ↔
      llongMin ≤ n * scale ∧ now + n * scale ≤ llongMax := by
  have bounds : llongMin = -(2 ^ 63) ∧ llongMax = 2 ^ 63 - 1 := ⟨rfl, rfl⟩
  have quotient : (llongMax - now).tdiv scale = (llongMax - now) / scale :=
    Int.tdiv_eq_ediv_of_nonneg (by omega)
  rw [quotient]
  have lowest : llongMin.tdiv 1 = -9223372036854775808 ∧
      llongMin.tdiv 1000 = -9223372036854775 := by decide
  rcases unit with rfl | rfl
  · rw [lowest.1]
    omega
  · rw [lowest.2]
    omega

theorem expireDeadlineWords_eq (reading : (now : Int) ≤ llongMax)
    (unit : scale = 1 ∨ scale = 1000) :
    expireDeadlineWords now n scale =
      some (if llongMin ≤ n * scale ∧ now + n * scale ≤ llongMax then some (now + n * scale)
        else none) := by
  rcases room_fits reading unit with ⟨room, limit⟩
  have low : longLong.div llongMin scale = some (llongMin.tdiv scale) := by
    rcases unit with rfl | rfl <;> decide
  unfold expireDeadlineWords
  simp only [low, room, limit, Option.bind_eq_bind, Option.bind_some, ← expire_fits reading unit]
  by_cases small : n < llongMin.tdiv scale
  · rw [if_pos small]
    rw [if_neg fun accepted => accepted.1 small]
  · rw [if_neg small]
    by_cases large : (llongMax - (now : Int)).tdiv scale < n
    · rw [if_pos large]
      rw [if_neg fun accepted => accepted.2 large]
    · rw [if_neg large]
      rcases (expire_fits reading unit).mp ⟨small, large⟩ with ⟨least, within⟩
      rcases deadline_words least within with ⟨multiplied, added⟩
      simp only [multiplied, added, Option.bind_some]
      rw [if_pos ⟨small, large⟩]

end Words

/-! ## The commands -/

section Commands

variable (db : Db) {now : Nat} (name key : Bytes)

theorem expireDeadline_ok_iff (reading : (now : Int) ≤ llongMax) {scale : Int}
    (unit : scale = 1 ∨ scale = 1000) (args : List Bytes) (n expireAt : Int) :
    expireDeadline now scale args = .ok (n, expireAt) ↔
      IsSigned (args[2]?.getD []) n ∧ llongMin ≤ n * scale ∧ now + n * scale ≤ llongMax ∧
        expireAt = now + n * scale := by
  have bounds : llongMin = -(2 ^ 63) ∧ llongMax = 2 ^ 63 - 1 := ⟨rfl, rfl⟩
  unfold expireDeadline
  rw [if_neg (by omega)]
  have read (signed : IsSigned (args[2]?.getD []) n) (low : llongMin ≤ n * scale)
      (high : now + n * scale ≤ llongMax) : parseI64 (args[2]?.getD []) = some n := by
    have range : llongMin ≤ n ∧ n ≤ llongMax := by
      rcases unit with rfl | rfl <;> omega
    exact (parseI64_eq_some_iff _ n).mpr ⟨signed, range⟩
  cases parsed : parseI64 (args[2]?.getD []) with
  | none =>
      refine iff_of_false (fun accepted => by cases accepted) fun accepted => ?_
      rcases accepted with ⟨signed, low, high, -⟩
      rw [read signed low high] at parsed
      cases parsed
  | some other =>
      have signed := ((parseI64_eq_some_iff _ other).mp parsed).1
      have fits := expire_fits (n := other) reading unit
      dsimp only
      by_cases refused : other < llongMin.tdiv scale ∨ (llongMax - (now : Int)).tdiv scale < other
      · rw [if_pos refused]
        refine iff_of_false (fun accepted => by cases accepted) fun accepted => ?_
        rcases accepted with ⟨written, low, high, -⟩
        rw [read written low high] at parsed
        cases parsed
        exact absurd (fits.mpr ⟨low, high⟩) (by rw [← not_or]; exact not_not.mpr refused)
      · rw [if_neg refused]
        rcases fits.mp (not_or.mp refused) with ⟨low, high⟩
        rw [Except.ok.injEq, Prod.mk.injEq]
        constructor
        · rintro ⟨rfl, rfl⟩
          exact ⟨signed, low, high, rfl⟩
        · rintro ⟨written, least, most, rfl⟩
          rw [read written least most] at parsed
          cases parsed
          exact ⟨rfl, rfl⟩

/-- The record that is stored has the deadline it was given. -/
theorem stored_assign (old new : Record) :
    ((db.assign name key old new).keysOf name).lookup key = some new := by
  unfold assign
  rw [keysOf_putKeys, if_pos rfl, FiniteMap.lookup_insert_if, if_pos rfl]

/-- Unless its condition fails, a `SET` with options that are accepted stores their
deadline. -/
theorem handleSet_stores (resp3 : Bool) (command value : Bytes) {texts : List Bytes}
    {options : SetOptions} (accepted : setOptions now {} texts = .ok options) :
    (db.handleSet now resp3 name (command :: key :: value :: texts)).2 = nil resp3 ∨
      ∃ record, ((db.handleSet now resp3 name (command :: key :: value :: texts)).1.keysOf
        name).lookup key = some record ∧ record.expireAt = options.expireAt := by
  unfold handleSet Keyspace.handleSet
  simp only [Keyspace.ofDb]
  rw [accepted]
  dsimp only
  by_cases refused : (options.nx && (db.lookup now name key).2.isSome || options.xx &&
      (db.lookup now name key).2.isNone) = true
  · rw [if_pos refused]
    exact .inl rfl
  · rw [if_neg refused]
    refine .inr ⟨_, stored_assign _ name key _ _, ?_⟩
    rfl

/-- The reply is an error exactly when the options are refused. -/
theorem handleSet_refuses (resp3 : Bool) (command value : Bytes) (texts : List Bytes) :
    (db.handleSet now resp3 name (command :: key :: value :: texts)).2.head? = some 45 ↔
      ∀ options, setOptions now {} texts ≠ .ok options := by
  unfold handleSet Keyspace.handleSet
  simp only [Keyspace.ofDb]
  cases read : setOptions now {} texts with
  | error err =>
      exact iff_of_true (setOptions_error read).head fun options same => by cases same
  | ok options =>
      refine iff_of_false ?_ fun refused => refused options rfl
      have absent : (nil resp3).head? ≠ some 45 := by cases resp3 <;> decide
      have done : (ascii "+OK\r\n").head? ≠ some 45 := by decide
      dsimp only
      by_cases conditional : (options.nx && (db.lookup now name key).2.isSome || options.xx &&
          (db.lookup now name key).2.isNone) = true
      · rw [if_pos conditional]
        exact absent
      · rw [if_neg conditional]
        exact done

/-- A new deadline of `EXPIRE` is stored as it was computed. -/
theorem handleExpire_stores {scale n expireAt : Int} {args : List Bytes}
    (accepted : expireDeadline now scale args = .ok (n, expireAt)) (positive : 0 < n) :
    (db.handleExpire now name args scale).2 = integer 1 →
      ∃ record, ((db.handleExpire now name args scale).1.keysOf name).lookup
        (args[1]?.getD []) = some record ∧ record.expireAt = expireAt := by
  have line {err : Bytes} (minus : err.head? = some 45) : err ≠ integer 1 := by
    rintro rfl
    exact absurd minus (by decide)
  have none : integer 0 ≠ integer 1 := by decide
  unfold handleExpire Keyspace.handleExpire
  simp only [Keyspace.ofDb]
  by_cases shape : (if scale ≠ 0 then args.length < 3 else args.length ≠ 2)
  · rw [if_pos shape]
    exact fun done => absurd done (line rfl)
  · rw [if_neg shape]
    cases parsed : expireOptions {} (args.drop 3) with
    | error err => exact fun done => absurd done (line (expireOptions_error parsed))
    | ok options =>
        dsimp only
        by_cases conflict : (options.nx && (options.xx || options.gt || options.lt)) = true
        · rw [if_pos conflict]
          exact fun done => absurd done (line (by dsimp only; decide))
        · rw [if_neg conflict]
          by_cases clash : (options.gt && options.lt) = true
          · rw [if_pos clash]
            exact fun done => absurd done (line (by dsimp only; decide))
          · rw [if_neg clash]
            rw [accepted]
            dsimp only
            rcases db.lookup now name (args[1]?.getD []) with ⟨found, _ | record⟩
            · exact fun done => absurd done none
            · dsimp only
              by_cases refused : scale = 0 ∧ record.expireAt = 0 ∨
                  expireRefused options record expireAt = true
              · rw [if_pos refused]
                exact fun done => absurd done none
              · rw [if_neg refused]
                rw [if_neg fun both => absurd both.2 (Int.not_le.mpr positive)]
                exact fun _ => ⟨_, stored_assign _ name _ _ _, rfl⟩

end Commands

/-- `SET` accepts exactly the texts of the grammar, and stores the deadline that they say;
`EXPIRE` and `PEXPIRE` accept exactly the amounts whose deadline is within the range of the
clock, and store it; and no operation on the way overflows. -/
theorem deadlines_exact (db : Db) (now : Nat) (reading : (now : Int) ≤ llongMax) (resp3 : Bool)
    (name command key value : Bytes) :
    (∀ texts,
      (db.handleSet now resp3 name (command :: key :: value :: texts)).2.head? ≠ some 45 ↔
        ∃ clauses, Written clauses texts ∧ Admissible now clauses) ∧
      (∀ clauses texts, Written clauses texts → Admissible now clauses →
        let deadline := (collect now {} clauses).expireAt
        let set := db.handleSet now resp3 name (command :: key :: value :: texts)
        (deadline = 0 ↔ ∀ clause ∈ clauses, clause.amount = none) ∧
          (∀ clause ∈ clauses, ∀ n scale, clause.amount = some (n, scale) →
            deadline = now + n * scale ∧ now < deadline ∧
              setDeadlineWords now n scale = some (some deadline)) ∧
          (set.2 = nil resp3 ∨ ∃ record, (set.1.keysOf name).lookup key = some record ∧
            record.expireAt = deadline)) ∧
      ∀ scale, scale = 1 ∨ scale = 1000 →
        (∀ n, setDeadlineWords now n scale ≠ none ∧ expireDeadlineWords now n scale ≠ none) ∧
          ∀ args n expireAt,
            (expireDeadline now scale args = .ok (n, expireAt) ↔
              IsSigned (args[2]?.getD []) n ∧
                expireDeadlineWords now n scale = some (some expireAt)) ∧
              (expireDeadline now scale args = .ok (n, expireAt) →
                expireAt = now + n * scale ∧
                  (0 < n → (db.handleExpire now name args scale).2 = integer 1 →
                    ∃ record, ((db.handleExpire now name args scale).1.keysOf name).lookup
                      (args[1]?.getD []) = some record ∧ record.expireAt = now + n * scale)) := by
  refine ⟨fun texts => ?_, fun clauses texts written admissible => ?_, fun scale unit => ?_⟩
  · rw [ne_eq, handleSet_refuses, not_forall]
    simp only [not_not, setOptions_ok_iff]
    constructor
    · rintro ⟨_, clauses, written, admissible, -⟩
      exact ⟨clauses, written, admissible⟩
    · rintro ⟨clauses, written, admissible⟩
      exact ⟨_, clauses, written, admissible, rfl⟩
  · rcases collect_expireAt admissible with ⟨none, ahead⟩
    refine ⟨none, fun clause member n scale amount => ?_, ?_⟩
    · rcases ahead clause member n scale amount with ⟨deadline, later⟩
      have fits := admissible.amounts clause member n scale amount
      have unit : scale = 1 ∨ scale = 1000 := by
        cases clause with
        | nx => cases amount
        | xx => cases amount
        | ex other => cases amount; exact .inr rfl
        | px other => cases amount; exact .inl rfl
      rw [setDeadlineWords_eq reading unit, if_pos fits]
      exact ⟨deadline, later, by rw [deadline]⟩
    · have accepted := (setOptions_ok_iff now texts _).mpr ⟨clauses, written, admissible, rfl⟩
      exact db.handleSet_stores name key resp3 command value accepted
  · refine ⟨fun n => ?_, fun args n expireAt => ⟨?_, fun accepted => ?_⟩⟩
    · rw [setDeadlineWords_eq reading unit, expireDeadlineWords_eq reading unit]
      exact ⟨Option.some_ne_none _, Option.some_ne_none _⟩
    · rw [expireDeadline_ok_iff reading unit, expireDeadlineWords_eq reading unit]
      refine and_congr_right fun _ => ?_
      by_cases fits : llongMin ≤ n * scale ∧ now + n * scale ≤ llongMax
      · rw [if_pos fits]
        simp only [fits.1, fits.2, true_and, Option.some_inj]
        exact eq_comm
      · rw [if_neg fits]
        refine iff_of_false (fun both => fits ⟨both.1, both.2.1⟩) fun same => ?_
        cases same
    · rcases (expireDeadline_ok_iff reading unit args n expireAt).mp accepted with
        ⟨-, -, -, deadline⟩
      refine ⟨deadline, fun positive done => ?_⟩
      rcases db.handleExpire_stores name accepted positive done with ⟨record, found, same⟩
      exact ⟨record, found, same.trans deadline⟩

/-- A key that was set in the year 2023. -/
def deadlineSample : Db :=
  (handleSet { config := {} } 1700000000000 false (ascii "default")
    [ascii "SET", ascii "k", ascii "v"]).1

theorem deadlines_exact_sample :
    (∃ clauses, Written clauses [ascii "px", ascii "007", ascii "Nx"] ∧
      Admissible 1700000000000 clauses) ∧
      ∃ record, ((deadlineSample.handleExpire 1700000000000 (ascii "default")
          [ascii "EXPIRE", ascii "k", ascii "60"] 1000).1.keysOf (ascii "default")).lookup
            (ascii "k") = some record ∧ record.expireAt = 1700000060000 := by
  have exact := deadlines_exact deadlineSample 1700000000000 (by decide) false (ascii "default")
    (ascii "SET") (ascii "j") (ascii "v")
  have accepted : expireDeadline 1700000000000 1000 [ascii "EXPIRE", ascii "k", ascii "60"] =
      .ok (60, 1700000060000) := by decide +kernel
  have done : (deadlineSample.handleExpire 1700000000000 (ascii "default")
      [ascii "EXPIRE", ascii "k", ascii "60"] 1000).2 = integer 1 := by decide +kernel
  constructor
  · apply (exact.1 _).mp
    decide +kernel
  · have stored := ((exact.2.2 1000 (.inr rfl)).2 _ 60 _).2 accepted
    exact stored.2 (by decide) done

end Db

end SomniumDB
