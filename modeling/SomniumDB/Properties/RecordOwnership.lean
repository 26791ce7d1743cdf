import SomniumDB.Abstract.Ownership
import SomniumDB.Core.RecordPointers
import SomniumDB.Core.Rooms

/-! # Every record in RAM belongs to one key of one room

Whatever rooms do with their records, no pointer is followed that does not lead
to a record, no record is shared or lost, and the rooms hold what they would
hold if they held the records themselves. -/

namespace SomniumDB

open Function PointerRooms

/-! ## What the rooms hold -/

/-- What a room may do with records. -/
inductive RecordCall
  | insert (room key : Bytes) (record : Record)
  | assign (room key : Bytes) (record : Record)
  | erase (room key : Bytes)
  | clear (room : Bytes)
  | wakeup (room : Bytes) (entries : List (Bytes × Record)) (complete : Bool)
  | dump (entries : List (Bytes × Record))

/-- The record that a snapshot file has under a key: the last one. -/
def lastEntry (entries : List (Bytes × Record)) (key : Bytes) : Option Record :=
  entries.foldl (fun found entry => if entry.1 = key then some entry.2 else found) none

/-- The rooms as maps of records. -/
abbrev Residents := Bytes × Bytes → Option Record

namespace RecordCall

/-- What a call does to the records of the rooms. -/
def apply (residents : Residents) : RecordCall → Residents
  | .insert room key record | .assign room key record =>
      update residents (room, key) (some record)
  | .erase room key => update residents (room, key) none
  | .clear room => fun place => if place.1 = room then none else residents place
  | .wakeup room entries complete => fun place =>
      if complete = true ∧ place.1 = room then lastEntry entries place.2 else residents place
  | .dump _ => residents

/-- A record is inserted only where there is none, and assigned or erased only
where there is one. -/
def Allowed (residents : Residents) : RecordCall → Prop
  | .insert room key _ => residents (room, key) = none
  | .assign room key _ | .erase room key => (residents (room, key)).isSome
  | .clear _ | .wakeup _ _ _ | .dump _ => True

end RecordCall

namespace PointerRooms

def call (state : PointerRooms) : RecordCall → Option PointerRooms
  | .insert room key record => state.insert room key record
  | .assign room key record => state.assign room key record
  | .erase room key => state.erase room key
  | .clear room => state.clear room
  | .wakeup room entries complete => state.wakeupRoom room entries complete
  | .dump entries => state.dumpSleeping entries

def run (state : PointerRooms) : List RecordCall → Option PointerRooms
  | [] => some state
  | call :: rest =>
      match state.call call with
      | none => none
      | some next => next.run rest

/-- The pointer under a key of a room. -/
def own (state : PointerRooms) (place : Bytes × Bytes) : Option Nat :=
  (state.keysOf place.1).lookup place.2

/-- The record under a key of a room. -/
def residents (state : PointerRooms) : Residents :=
  contents state.pool state.own

/-- Every record of the pool is under one key of one room, and every key of a
room leads to one. -/
def Sound (state : PointerRooms) : Prop :=
  Owns recordBlockSize state.pool state.own

variable {state : PointerRooms}

theorem sound_empty : ({} : PointerRooms).Sound := by
  constructor
  · exact ⟨[], Pool.wellFormed_empty⟩
  · intro pointer
    exact iff_of_false (by simp [Pool.value, PoolNode.record])
      (by rintro ⟨place, found⟩; cases found)
  · intro first second pointer left
    cases left

theorem positive : 0 < recordBlockSize := by
  decide

theorem own_put (pool : Pool Record) (room : Bytes) (keys : FiniteMap Bytes Nat)
    (place : Bytes × Bytes) :
    (state.put pool room keys).own place =
      if place.1 = room then keys.lookup place.2 else state.own place := by
  simp only [own, put, keysOf, FiniteMap.lookup_insert_if]
  by_cases same : place.1 = room
  · simp only [if_pos same]
    rfl
  · simp only [if_neg same]

/-- One key of a room has changed. -/
theorem own_update {pool : Pool Record} {room key : Bytes} {keys : FiniteMap Bytes Nat}
    {held : Option Nat}
    (changed : ∀ other, keys.lookup other =
      if other = key then held else (state.keysOf room).lookup other) :
    (state.put pool room keys).own = update state.own (room, key) held := by
  funext place
  rcases place with ⟨name, other⟩
  rw [own_put]
  by_cases sameRoom : name = room
  · rw [if_pos sameRoom, changed]
    by_cases sameKey : other = key
    · rw [if_pos sameKey, sameRoom, sameKey, update_self]
    · rw [if_neg sameKey, update_of_ne (by simp [sameKey]), sameRoom]
      rfl
  · rw [if_neg sameRoom, update_of_ne (by simp [sameRoom])]

/-! ## One key -/

theorem sound_insert (sound : state.Sound) {room key : Bytes} (record : Record)
    (absent : state.residents (room, key) = none) :
    ∃ next, state.insert room key record = some next ∧ next.Sound ∧
      next.residents = update state.residents (room, key) (some record) := by
  have free : state.own (room, key) = none := by
    have held := sound.contents_isSome (room, key)
    rw [← Option.not_isSome_iff_eq_none, ← held]
    rw [← Option.not_isSome_iff_eq_none] at absent
    exact absent
  rcases Owns.construct positive sound free record with
    ⟨pool, pointer, constructed, owns, held⟩
  have same : (state.put pool room ((state.keysOf room).insert key pointer)).own =
      update state.own (room, key) (some pointer) := by
    apply own_update
    intro other
    exact FiniteMap.lookup_insert_if _ _ _ _
  refine ⟨state.put pool room ((state.keysOf room).insert key pointer), ?_, ?_, ?_⟩
  · have missing : (state.keysOf room).lookup key = none := free
    simp [PointerRooms.insert, constructed, missing]
  · simp only [Sound, same]
    exact owns
  · simp only [residents, same]
    exact held

theorem pointer_of_resident (sound : state.Sound) {room key : Bytes}
    (present : (state.residents (room, key)).isSome) :
    ∃ pointer, state.own (room, key) = some pointer :=
  Option.isSome_iff_exists.mp ((sound.contents_isSome (room, key)).mp present)

theorem sound_assign (sound : state.Sound) {room key : Bytes} (record : Record)
    (present : (state.residents (room, key)).isSome) :
    ∃ next, state.assign room key record = some next ∧ next.Sound ∧
      next.residents = update state.residents (room, key) (some record) := by
  rcases pointer_of_resident sound present with ⟨pointer, holds⟩
  rcases Owns.write sound holds record with ⟨pool, written, owns, held⟩
  have found : (state.keysOf room).lookup key = some pointer := holds
  refine ⟨{ state with pool }, ?_, owns, held⟩
  simp [assign, found, written]

theorem sound_erase (sound : state.Sound) {room key : Bytes}
    (present : (state.residents (room, key)).isSome) :
    ∃ next, state.erase room key = some next ∧ next.Sound ∧
      next.residents = update state.residents (room, key) none := by
  rcases pointer_of_resident sound present with ⟨pointer, holds⟩
  rcases Owns.destroy sound holds with ⟨pool, destroyed, owns, held⟩
  have found : (state.keysOf room).lookup key = some pointer := holds
  have same : (state.put pool room ((state.keysOf room).erase key)).own =
      update state.own (room, key) none := by
    apply own_update
    intro other
    exact FiniteMap.lookup_erase_if _ _ _
  refine ⟨state.put pool room ((state.keysOf room).erase key), ?_, ?_, ?_⟩
  · simp [erase, found, destroyed]
  · simp only [Sound, same]
    exact owns
  · simp only [residents, same]
    exact held

/-! ## Many keys -/

/-- Some owners hold nothing any more. -/
def without {ι : Type} {β : Type} [DecidableEq ι] (gone : List ι) (held : ι → Option β)
    (owner : ι) : Option β :=
  if owner ∈ gone then none else held owner

theorem without_cons {ι β : Type} [DecidableEq ι] (owner : ι) (gone : List ι)
    (held : ι → Option β) :
    without (owner :: gone) held = without gone (update held owner none) := by
  funext other
  by_cases same : other = owner
  · simp [without, same]
  · simp [without, same]

theorem destroyAll_spec {ι : Type} [DecidableEq ι] {pool : Pool Record} {own : ι → Option Nat}
    (owns : Owns recordBlockSize pool own) {owners : List (ι × Nat)}
    (holds : ∀ entry ∈ owners, own entry.1 = some entry.2)
    (distinct : (owners.map Prod.fst).Nodup) :
    ∃ next, destroyAll pool (owners.map Prod.snd) = some next ∧
      Owns recordBlockSize next (without (owners.map Prod.fst) own) ∧
      contents next (without (owners.map Prod.fst) own) =
        without (owners.map Prod.fst) (contents pool own) := by
  induction owners generalizing pool own with
  | nil => exact ⟨pool, rfl, owns, rfl⟩
  | cons entry rest induction =>
      rw [List.map_cons, List.nodup_cons] at distinct
      rcases owns.destroy (holds entry List.mem_cons_self) with ⟨between, destroyed, left, held⟩
      have later : ∀ other ∈ rest, update own entry.1 none other.1 = some other.2 := by
        intro other member
        rw [update_of_ne]
        · exact holds other (List.mem_cons_of_mem _ member)
        · intro same
          rw [← same] at distinct
          exact distinct.1 (List.mem_map_of_mem member)
      rcases induction left later distinct.2 with ⟨next, all, final, contents⟩
      rw [List.map_cons, List.map_cons, without_cons, without_cons]
      refine ⟨next, ?_, final, ?_⟩
      · simp only [destroyAll, destroyed, all]
      · rw [contents, held]

/-- The owners whose pointers are those of a map of keys give up their records,
the others keep theirs. -/
theorem destroyKeys_spec {ι : Type} [DecidableEq ι] {pool : Pool Record} {own left : ι → Option Nat}
    (owns : Owns recordBlockSize pool own) {keys : FiniteMap Bytes Nat} {place : Bytes → ι}
    (injective : Injective place) (those : ∀ key, own (place key) = keys.lookup key)
    (gone : ∀ key, left (place key) = none)
    (kept : ∀ owner, (∀ key, place key ≠ owner) → left owner = own owner) :
    ∃ next, destroyAll pool (pointers keys) = some next ∧ Owns recordBlockSize next left ∧
      ∀ owner, (∀ key, place key ≠ owner) → contents next left owner = contents pool own owner := by
  have listed : ∀ key, place key ∉ (keys.toPairs.map fun entry => (place entry.1, entry.2)).map
      Prod.fst → own (place key) = none := by
    intro key absent
    rw [those key]
    cases found : keys.lookup key with
    | none => rfl
    | some pointer =>
        apply absurd _ absent
        rw [List.map_map]
        exact List.mem_map.mpr ⟨(key, pointer), (keys.mem_toPairs key pointer).mpr found, rfl⟩
  have outside : ∀ owner, owner ∈ (keys.toPairs.map fun entry => (place entry.1, entry.2)).map
      Prod.fst → ∃ key, place key = owner := by
    intro owner member
    rw [List.map_map] at member
    rcases List.mem_map.mp member with ⟨entry, _, same⟩
    exact ⟨entry.1, same⟩
  have same : left = without ((keys.toPairs.map fun entry => (place entry.1, entry.2)).map
      Prod.fst) own := by
    funext owner
    by_cases ours : ∃ key, place key = owner
    · rcases ours with ⟨key, here⟩
      rw [← here, gone key, without]
      by_cases holds :
          place key ∈ (keys.toPairs.map fun entry => (place entry.1, entry.2)).map Prod.fst
      · rw [if_pos holds]
      · rw [if_neg holds]
        exact (listed key holds).symm
    · rw [kept owner fun key here => ours ⟨key, here⟩, without, if_neg]
      exact fun member => ours (outside owner member)
  have holds : ∀ entry ∈ keys.toPairs.map fun entry => (place entry.1, entry.2),
      own entry.1 = some entry.2 := by
    intro entry member
    rcases List.mem_map.mp member with ⟨pair, inside, equal⟩
    rw [← equal, those pair.1]
    exact (keys.mem_toPairs pair.1 pair.2).mp inside
  have distinct : ((keys.toPairs.map fun entry => (place entry.1, entry.2)).map
      Prod.fst).Nodup := by
    rw [List.map_map]
    have keysDistinct := keys.toPairs_nodup_keys.map injective
    rw [List.map_map] at keysDistinct
    exact keysDistinct
  rcases destroyAll_spec owns holds distinct with ⟨next, destroyed, final, held⟩
  rw [← same] at final held
  refine ⟨next, ?_, final, ?_⟩
  · rw [List.map_map] at destroyed
    exact destroyed
  · intro owner others
    rw [held, without, if_neg]
    exact fun member => (outside owner member).elim fun key here => others key here

/-- Nothing is held in one room. -/
def withoutRoom (room : Bytes) (own : Bytes × Bytes → Option Nat) (place : Bytes × Bytes) :
    Option Nat :=
  if place.1 = room then none else own place

theorem withoutRoom_self (room key : Bytes) (own : Bytes × Bytes → Option Nat) :
    withoutRoom room own (room, key) = none :=
  if_pos rfl

theorem withoutRoom_of_ne {room : Bytes} {place : Bytes × Bytes} (different : place.1 ≠ room)
    (own : Bytes × Bytes → Option Nat) : withoutRoom room own place = own place :=
  if_neg different

theorem sound_clear (sound : state.Sound) (room : Bytes) :
    ∃ next, state.clear room = some next ∧ next.Sound ∧
      next.residents = RecordCall.apply state.residents (.clear room) := by
  have left : ∀ pool, (state.put pool room ∅).own = withoutRoom room state.own := by
    intro pool
    funext place
    rw [own_put]
    rfl
  have injective : Injective fun key : Bytes => (room, key) :=
    fun first second same => (Prod.mk.inj same).2
  have kept : ∀ place : Bytes × Bytes, (∀ key, (room, key) ≠ place) →
      withoutRoom room state.own place = state.own place :=
    fun place others => withoutRoom_of_ne (fun same => others place.2 (by rw [← same])) _
  have those : ∀ key, state.own (room, key) = (state.keysOf room).lookup key := fun key => rfl
  rcases destroyKeys_spec sound injective those
      (fun key => withoutRoom_self room key state.own) kept with ⟨pool, destroyed, owns, held⟩
  refine ⟨state.put pool room ∅, ?_, ?_, ?_⟩
  · simp [clear, destroyed]
  · simp only [Sound, left]
    exact owns
  · funext place
    simp only [residents, left, RecordCall.apply]
    by_cases same : place.1 = room
    · rw [if_pos same]
      simp [contents, withoutRoom, same]
    · rw [if_neg same]
      exact held place fun key here => same (by rw [← here])

/-! ## Snapshots -/

/-- A pointer is loaded under a key. -/
theorem elim_insert (own : Bytes × Bytes → Option Nat) (loaded : FiniteMap Bytes Nat)
    (key : Bytes) (pointer : Nat) :
    Sum.elim own (loaded.insert key pointer).lookup =
      update (Sum.elim own loaded.lookup) (.inr key) (some pointer) := by
  rw [Sum.update_elim_inr]
  congr 1
  funext other
  rw [FiniteMap.lookup_insert_if]
  by_cases same : other = key
  · rw [if_pos same, same, update_self]
  · rw [if_neg same, update_of_ne same]

/-- What is held after some entries of a file have been loaded. -/
def loadedInto (held : (Bytes × Bytes) ⊕ Bytes → Option Record)
    (entries : List (Bytes × Record)) : (Bytes × Bytes) ⊕ Bytes → Option Record :=
  entries.foldl (fun held entry => update held (.inr entry.1) (some entry.2)) held

theorem loadedInto_inl (held : (Bytes × Bytes) ⊕ Bytes → Option Record)
    (entries : List (Bytes × Record)) (place : Bytes × Bytes) :
    loadedInto held entries (.inl place) = held (.inl place) := by
  induction entries generalizing held with
  | nil => rfl
  | cons entry rest induction =>
      have later := induction (update held (.inr entry.1) (some entry.2))
      rw [update_of_ne (by simp)] at later
      exact later

theorem loadedInto_inr (held : (Bytes × Bytes) ⊕ Bytes → Option Record)
    (entries : List (Bytes × Record)) (key : Bytes) :
    loadedInto held entries (.inr key) =
      entries.foldl (fun found entry => if entry.1 = key then some entry.2 else found)
        (held (.inr key)) := by
  induction entries generalizing held with
  | nil => rfl
  | cons entry rest induction =>
      have later : loadedInto held (entry :: rest) (.inr key) = _ :=
        induction (update held (.inr entry.1) (some entry.2))
      rw [List.foldl_cons]
      by_cases same : entry.1 = key
      · rw [same, update_self] at later
        rw [if_pos same]
        exact later
      · rw [update_of_ne (by simpa using Ne.symm same)] at later
        rw [if_neg same]
        exact later

/-- The loop over the records of a file: what is loaded is owned by the keys of
the file, beside what the rooms own. -/
theorem load_spec {pool : Pool Record} {own : Bytes × Bytes → Option Nat}
    {loaded : FiniteMap Bytes Nat} (entries : List (Bytes × Record))
    (owns : Owns recordBlockSize pool (Sum.elim own loaded.lookup)) :
    ∃ next after, load pool loaded entries = some (next, after) ∧
      Owns recordBlockSize next (Sum.elim own after.lookup) ∧
      contents next (Sum.elim own after.lookup) =
        loadedInto (contents pool (Sum.elim own loaded.lookup)) entries := by
  induction entries generalizing pool loaded with
  | nil => exact ⟨pool, loaded, rfl, owns, rfl⟩
  | cons entry rest induction =>
      cases found : loaded.lookup entry.1 with
      | none =>
          have free : Sum.elim own loaded.lookup (.inr entry.1) = none := found
          rcases owns.construct positive free entry.2 with
            ⟨between, pointer, constructed, held, contents⟩
          rw [← elim_insert] at held contents
          rcases induction held with ⟨next, after, all, final, ends⟩
          refine ⟨next, after, ?_, final, ?_⟩
          · simp only [load, constructed, found, all]
          · rw [ends, contents]
            rfl
      | some old =>
          have holds : Sum.elim own loaded.lookup (.inr entry.1) = some old := found
          rcases owns.replace positive holds entry.2 with
            ⟨between, pointer, left, constructed, destroyed, held, contents⟩
          rw [← elim_insert] at held contents
          rcases induction held with ⟨next, after, all, final, ends⟩
          refine ⟨next, after, ?_, final, ?_⟩
          · simp only [load, constructed, found, destroyed, all]
          · rw [ends, contents]
            rfl

/-- Nothing has been loaded yet. -/
theorem owns_unloaded (sound : state.Sound) :
    Owns recordBlockSize state.pool (Sum.elim state.own (∅ : FiniteMap Bytes Nat).lookup) := by
  apply Owns.handOver sound
  · intro pointer
    constructor
    · intro holder
      rcases holder with ⟨owner, found⟩
      cases owner with
      | inl place => exact ⟨place, found⟩
      | inr key => cases found
    · intro holder
      rcases holder with ⟨place, found⟩
      exact ⟨.inl place, found⟩
  · intro first second pointer left right
    cases first with
    | inl place =>
        cases second with
        | inl other => rw [sound.single place other pointer left right]
        | inr key => cases right
    | inr key => cases left

/-- What was loaded is given up again: the rooms own what they owned. -/
theorem unload_spec {pool : Pool Record} {loaded : FiniteMap Bytes Nat}
    (owns : Owns recordBlockSize pool (Sum.elim state.own loaded.lookup)) :
    ∃ next, destroyAll pool (pointers loaded) = some next ∧
      Owns recordBlockSize next state.own ∧
      ∀ place, contents next state.own place =
        contents pool (Sum.elim state.own loaded.lookup) (.inl place) := by
  have kept : ∀ owner : (Bytes × Bytes) ⊕ Bytes, (∀ key, Sum.inr key ≠ owner) →
      Sum.elim state.own (fun _ => none) owner = Sum.elim state.own loaded.lookup owner := by
    intro owner others
    cases owner with
    | inl place => rfl
    | inr key => exact absurd rfl (others key)
  have gone : ∀ key, Sum.elim state.own (fun _ : Bytes => none) (Sum.inr key) = none :=
    fun key => rfl
  rcases destroyKeys_spec owns Sum.inr_injective (fun key => rfl) gone kept with
    ⟨next, destroyed, left, held⟩
  refine ⟨next, destroyed, ?_, ?_⟩
  · apply left.handOver
    · intro pointer
      constructor
      · intro holder
        rcases holder with ⟨place, found⟩
        exact ⟨.inl place, found⟩
      · intro holder
        rcases holder with ⟨owner, found⟩
        cases owner with
        | inl place => exact ⟨place, found⟩
        | inr key => cases found
    · intro first second pointer one two
      have same := left.single (.inl first) (.inl second) pointer one two
      exact Sum.inl.inj same
  · intro place
    exact held (.inl place) fun key => by simp

theorem sound_unloaded (sound : state.Sound) (entries : List (Bytes × Record)) :
    ∃ pool loaded next, load state.pool ∅ entries = some (pool, loaded) ∧
      destroyAll pool (pointers loaded) = some next ∧ ({ state with pool := next }).Sound ∧
      ({ state with pool := next }).residents = state.residents := by
  rcases load_spec entries (owns_unloaded sound) with ⟨pool, loaded, all, owns, held⟩
  rcases unload_spec owns with ⟨next, destroyed, left, same⟩
  refine ⟨pool, loaded, next, all, destroyed, left, ?_⟩
  funext place
  have before := same place
  rw [held, loadedInto_inl] at before
  exact before

/-- A complete file takes the place of what the room holds. -/
theorem sound_loaded (sound : state.Sound) (room : Bytes) (entries : List (Bytes × Record)) :
    ∃ pool loaded next, load state.pool ∅ entries = some (pool, loaded) ∧
      destroyAll pool (pointers (state.keysOf room)) = some next ∧
      (state.put next room loaded).Sound ∧
      (state.put next room loaded).residents =
        RecordCall.apply state.residents (.wakeup room entries true) := by
  rcases load_spec entries (owns_unloaded sound) with ⟨pool, loaded, all, owns, held⟩
  have injective : Injective fun key : Bytes =>
      (Sum.inl (room, key) : (Bytes × Bytes) ⊕ Bytes) :=
    fun first second same => (Prod.mk.inj (Sum.inl.inj same)).2
  have kept : ∀ owner : (Bytes × Bytes) ⊕ Bytes, (∀ key, Sum.inl (room, key) ≠ owner) →
      Sum.elim (withoutRoom room state.own) loaded.lookup owner =
        Sum.elim state.own loaded.lookup owner := by
    intro owner others
    cases owner with
    | inl place =>
        exact withoutRoom_of_ne (fun same => others place.2 (by rw [← same])) state.own
    | inr key => rfl
  have those : ∀ key, Sum.elim state.own loaded.lookup (Sum.inl (room, key)) =
      (state.keysOf room).lookup key := fun key => rfl
  rcases destroyKeys_spec owns injective those
      (fun key => withoutRoom_self room key state.own) kept with ⟨next, destroyed, left, same⟩
  -- the pointers loaded move under the keys of the room
  have moved : ∀ place, (state.put next room loaded).own place =
      Sum.elim (withoutRoom room state.own) loaded.lookup
        (if place.1 = room then .inr place.2 else .inl place) := by
    intro place
    rw [own_put]
    by_cases here : place.1 = room
    · simp [here]
    · simp [here, withoutRoom]
  refine ⟨pool, loaded, next, all, destroyed, ?_, ?_⟩
  · apply left.handOver
    · intro pointer
      constructor
      · intro holder
        rcases holder with ⟨place, found⟩
        rw [moved place] at found
        exact ⟨_, found⟩
      · intro holder
        rcases holder with ⟨owner, found⟩
        cases owner with
        | inl place =>
            by_cases here : place.1 = room
            · simp [withoutRoom, here] at found
            · refine ⟨place, ?_⟩
              rw [moved place, if_neg here]
              exact found
        | inr key =>
            refine ⟨(room, key), ?_⟩
            rw [moved (room, key), if_pos rfl]
            exact found
    · intro first second pointer one two
      rw [moved first] at one
      rw [moved second] at two
      have equal := left.single _ _ pointer one two
      by_cases firstHere : first.1 = room
      · by_cases secondHere : second.1 = room
        · simp only [firstHere, secondHere, if_true, Sum.inr.injEq] at equal
          exact Prod.ext (firstHere.trans secondHere.symm) equal
        · simp [firstHere, secondHere] at equal
      · by_cases secondHere : second.1 = room
        · simp [firstHere, secondHere] at equal
        · simpa [firstHere, secondHere] using equal
  · funext place
    have inner : (state.put next room loaded).residents place =
        contents next (Sum.elim (withoutRoom room state.own) loaded.lookup)
          (if place.1 = room then .inr place.2 else .inl place) := by
      simp only [residents, contents]
      rw [moved place]
      rfl
    rw [inner]
    simp only [RecordCall.apply, true_and]
    by_cases here : place.1 = room
    · rw [if_pos here, if_pos here, same _ (by simp), held, loadedInto_inr]
      rfl
    · have others : ∀ key, Sum.inl (room, key) ≠ (Sum.inl place : (Bytes × Bytes) ⊕ Bytes) := by
        intro key equal
        exact here (by rw [← Sum.inl.inj equal])
      rw [if_neg here, if_neg here, same _ others, held, loadedInto_inl]
      rfl

/-! ## Runs -/

theorem call_spec (sound : state.Sound) {call : RecordCall}
    (allowed : call.Allowed state.residents) :
    ∃ next, state.call call = some next ∧ next.Sound ∧
      next.residents = call.apply state.residents := by
  cases call with
  | insert room key record => exact sound_insert sound record allowed
  | assign room key record => exact sound_assign sound record allowed
  | erase room key => exact sound_erase sound allowed
  | clear room => exact sound_clear sound room
  | wakeup room entries complete =>
      cases complete with
      | true =>
          rcases sound_loaded sound room entries with ⟨pool, loaded, next, all, gone, owns, held⟩
          refine ⟨state.put next room loaded, ?_, owns, held⟩
          simp [call, wakeupRoom, all, gone]
      | false =>
          rcases sound_unloaded sound entries with ⟨pool, loaded, next, all, gone, owns, held⟩
          refine ⟨{ state with pool := next }, ?_, owns, ?_⟩
          · simp [call, wakeupRoom, all, gone]
          · rw [held]
            funext place
            simp [RecordCall.apply]
  | dump entries =>
      rcases sound_unloaded sound entries with ⟨pool, loaded, next, all, gone, owns, held⟩
      refine ⟨{ state with pool := next }, ?_, owns, held⟩
      simp [call, dumpSleeping, all, gone]

end PointerRooms

/-- The calls of a run are allowed by what the rooms hold when they are made. -/
def AllowedRun : Residents → List RecordCall → Prop
  | _, [] => True
  | residents, call :: rest => call.Allowed residents ∧ AllowedRun (call.apply residents) rest

theorem run_from {state : PointerRooms} (sound : state.Sound) {calls : List RecordCall}
    (allowed : AllowedRun state.residents calls) :
    ∃ final, state.run calls = some final ∧ final.Sound ∧
      final.residents = calls.foldl RecordCall.apply state.residents := by
  induction calls generalizing state with
  | nil => exact ⟨state, rfl, sound, rfl⟩
  | cons call rest induction =>
      rcases allowed with ⟨here, later⟩
      rcases call_spec sound here with ⟨next, called, owns, held⟩
      rw [← held] at later
      rcases induction owns later with ⟨final, run, ends, same⟩
      refine ⟨final, ?_, ends, ?_⟩
      · simp [PointerRooms.run, called, run]
      · rw [same, held]
        rfl

/-- For every sequence of insertions, assignments, erasures and evictions, wakes
on complete and on corrupt snapshots (also with a key twice in the file),
refused wakes, hibernations and dumps: no pointer that does not lead to a record
is followed, written or destroyed; afterwards every record of the pool is under
exactly one key of one room; and the rooms hold what rooms of records would
hold. -/
theorem records_owned {calls : List RecordCall}
    (allowed : AllowedRun (fun _ => none) calls) :
    ∃ state, PointerRooms.run {} calls = some state ∧ state.Sound ∧
      state.residents = calls.foldl RecordCall.apply fun _ => none :=
  run_from sound_empty allowed

end SomniumDB
