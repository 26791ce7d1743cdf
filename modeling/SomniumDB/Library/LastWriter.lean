import Mathlib.Data.Set.Finite.Lemmas
import Mathlib.Order.Basic

/-! # Last writer wins

Updates of keys, each with a version. A replica knows some of them and shows, under each
key, what the newest one says. Replicas that know the same updates show the same,
whatever the order in which they came to know them. -/

namespace SomniumDB.LastWriter

variable {Update : Type u} {Key : Type v} {Version : Type w} [LinearOrder Version]

/-- No update of the same key is newer. -/
structure Latest (key : Update → Key) (version : Update → Version) (known : Set Update)
    (update : Update) : Prop where
  member : update ∈ known
  newest : ∀ other ∈ known, key other = key update → version other ≤ version update

/-- No key has two updates of one version. -/
def Distinct (key : Update → Key) (version : Update → Version) (known : Set Update) : Prop :=
  ∀ left ∈ known, ∀ right ∈ known, key left = key right → version left = version right →
    left = right

variable {key : Update → Key} {version : Update → Version} {known : Set Update}
  {update other : Update}

theorem Latest.unique (distinct : Distinct key version known)
    (left : Latest key version known update) (right : Latest key version known other)
    (same : key update = key other) : update = other := by
  apply distinct update left.member other right.member same
  apply le_antisymm
  · exact right.newest update left.member same
  · exact left.newest other right.member same.symm

/-- An update that is not newer changes nothing. -/
theorem Latest.older (latest : Latest key version known update)
    (older : key other = key update → version other ≤ version update) :
    Latest key version (insert other known) update := by
  constructor
  · exact Set.mem_insert_of_mem other latest.member
  · intro candidate member same
    rcases Set.mem_insert_iff.mp member with equal | earlier
    · subst candidate
      exact older same
    · exact latest.newest candidate earlier same

/-- An update above all others of its key. -/
theorem Latest.above (above : ∀ other ∈ known, key other = key update →
    version other ≤ version update) : Latest key version (insert update known) update := by
  constructor
  · exact Set.mem_insert update known
  · intro candidate member same
    rcases Set.mem_insert_iff.mp member with equal | earlier
    · rw [equal]
    · exact above candidate earlier same

/-- What concerns a key depends only on the updates of that key. -/
theorem Latest.congr {others : Set Update} (latest : Latest key version known update)
    (same : ∀ other, key other = key update → (other ∈ others ↔ other ∈ known)) :
    Latest key version others update := by
  constructor
  · exact (same update rfl).mpr latest.member
  · intro other member here
    exact latest.newest other ((same other here).mp member) here

theorem exists_latest (finite : known.Finite) (member : update ∈ known) :
    ∃ newest, Latest key version known newest ∧ key newest = key update := by
  have some : {other ∈ known | key other = key update}.Nonempty := ⟨update, member, rfl⟩
  have bounded := Set.exists_max_image {other ∈ known | key other = key update} version
    (finite.subset fun _ within => within.1) some
  rcases bounded with ⟨newest, ⟨present, here⟩, greatest⟩
  refine ⟨newest, ⟨present, ?_⟩, here⟩
  intro other within same
  exact greatest other ⟨within, same.trans here⟩

/-- A reader that shows what the newest update of a key says, and nothing of a key
without updates. -/
structure Shows (key : Update → Key) (version : Update → Version) (value : Update → Option Value)
    (known : Set Update) (read : Key → Option Value) : Prop where
  latest : ∀ update, Latest key version known update → read (key update) = value update
  absent : ∀ here, (∀ update ∈ known, key update ≠ here) → read here = none

/-- Readers of the same updates agree. -/
theorem Shows.agree {value : Update → Option Value} {left right : Key → Option Value}
    (finite : known.Finite) (first : Shows key version value known left)
    (second : Shows key version value known right) : left = right := by
  funext here
  by_cases touched : ∃ update ∈ known, key update = here
  · rcases touched with ⟨update, member, rfl⟩
    have reached : ∃ newest, Latest key version known newest ∧ key newest = key update :=
      exists_latest finite member
    rcases reached with ⟨newest, latest, same⟩
    rw [← same, first.latest newest latest, second.latest newest latest]
  · have untouched : ∀ update ∈ known, key update ≠ here := fun update member same =>
      touched ⟨update, member, same⟩
    rw [first.absent here untouched, second.absent here untouched]

end SomniumDB.LastWriter
