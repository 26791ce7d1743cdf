import SomniumDB.Core.SharedSnapshots
import SomniumDB.Properties.SnapshotFile

/-! # The child of a rewrite and the snapshots of the node

A snapshot that the node has written completely stays under its name, and a room that it
has hibernated wakes with its keys, unless the child renames a file that the node has
replaced since the child took its size. -/

namespace SomniumDB

open Bytes SnapshotManager

/-- The records that were put away, as they are loaded again. -/
def SameKeys (loaded keys : FiniteMap Bytes Record) : Prop :=
  ∀ key, loaded.lookup key = (keys.lookup key).map Record.normalized

namespace Loader

/-- The loader of a complete snapshot is on its way to load it. -/
def OnCourse (keys : FiniteMap Bytes Record) : Loader → Prop
  | .start => True
  | .sized size => size = (encode keys).length
  | .opened size content => size = (encode keys).length ∧ content = encode keys
  | .corrupt => False
  | .ended _ => False

/-- What a loader has opened can be held in memory. -/
def Small : Loader → Prop
  | .opened _ content => content.length < 2 ^ 64
  | _ => True

variable {keys : FiniteMap Bytes Record}

theorem decode_kept (typed : Typed keys) :
    ∃ loaded, decode (encode keys) = some loaded ∧ SameKeys loaded keys ∧ Typed loaded := by
  rcases decode_encode typed.fits typed.few_pairs with ⟨loaded, decoded, perm⟩
  have same : SameKeys loaded keys := by
    intro key
    rw [← FiniteMap.lookup_mapValues]
    exact AList.perm_lookup perm
  refine ⟨loaded, decoded, same, ?_, ?_⟩
  · intro key record stored
    rw [same key, Option.map_eq_some_iff] at stored
    rcases stored with ⟨before, found, equal⟩
    subst equal
    have fits := typed.fits key before found
    exact ⟨fits.key, fits.value, fits.deadline, normalize_lt fits.timestamp, fits.node⟩
  · have few := typed.few
    rw [perm.length_eq]
    unfold FiniteMap.mapValues
    rwa [List.length_map]

/-- A call that succeeds takes the loader on, or it has loaded the records. -/
theorem OnCourse.step {loader : Loader} (course : loader.OnCourse keys) (typed : Typed keys) :
    (loader.step (some (encode keys)) true).2 = some (encode keys) ∧
      (((loader.step (some (encode keys)) true).1.OnCourse keys ∧
          (loader.step (some (encode keys)) true).1.left < loader.left) ∨
        ∃ loaded, (loader.step (some (encode keys)) true).1 = .ended (some loaded) ∧
          SameKeys loaded keys ∧ Typed loaded) := by
  cases loader with
  | start => exact ⟨rfl, .inl ⟨rfl, Nat.lt_succ_self _⟩⟩
  | sized size => exact ⟨rfl, .inl ⟨⟨course, rfl⟩, Nat.lt_succ_self _⟩⟩
  | opened size content =>
      rcases course with ⟨whole, same⟩
      subst whole same
      rcases decode_kept typed with ⟨loaded, decoded, kept⟩
      refine ⟨rfl, .inr ⟨loaded, ?_, kept⟩⟩
      unfold Loader.step
      dsimp only
      rw [if_neg, List.take_length, decoded]
      · rfl
      · rintro ⟨_, failed | short⟩
        · cases failed
        · exact Nat.lt_irrefl _ short
  | corrupt => exact course.elim
  | ended loaded => exact course.elim

/-- A call that fails leaves the file alone and ends the loader. -/
theorem OnCourse.step_failed {loader : Loader} (course : loader.OnCourse keys) :
    (loader.step (some (encode keys)) false).2 = some (encode keys) ∧
      ((loader.step (some (encode keys)) false).1 = .ended none) := by
  have header : 0 < (encode keys).length := by
    rw [length_encode]
    omega
  cases loader with
  | start => exact ⟨rfl, rfl⟩
  | sized size => exact ⟨rfl, rfl⟩
  | opened size content =>
      rcases course with ⟨whole, same⟩
      subst whole same
      refine ⟨rfl, ?_⟩
      unfold Loader.step
      dsimp only
      rw [if_pos ⟨header, .inl rfl⟩]
  | corrupt => exact course.elim
  | ended loaded => exact course.elim

/-- On a file that can be held in memory, what is loaded has its types. -/
theorem Small.step {loader : Loader} (small : loader.Small) {file : Option Bytes}
    (bounded : ∀ data, file = some data → data.length < 2 ^ 64) (ok : Bool) :
    (loader.step file ok).1.Small ∧
      (∀ data, (loader.step file ok).2 = some data → data.length < 2 ^ 64) ∧
      ∀ loaded, (∀ before, loader ≠ .ended before) →
        (loader.step file ok).1 = .ended (some loaded) → Typed loaded := by
  cases loader with
  | start =>
      unfold Loader.step
      cases ok <;> cases file <;> exact ⟨trivial, bounded, fun _ _ => by simp⟩
  | sized size =>
      unfold Loader.step
      cases ok with
      | false => exact ⟨trivial, bounded, fun _ _ => by simp⟩
      | true =>
          cases file with
          | none => exact ⟨trivial, bounded, fun _ _ => by simp⟩
          | some data => exact ⟨bounded data rfl, bounded, fun _ _ => by simp⟩
  | opened size content =>
      unfold Loader.step
      dsimp only
      by_cases unread : 0 < size ∧ (ok = false ∨ content.length < size)
      · rw [if_pos unread]
        exact ⟨trivial, bounded, fun _ _ => by simp⟩
      · rw [if_neg unread]
        cases decoded : decode (content.take size) with
        | none => exact ⟨trivial, bounded, fun _ _ => by simp⟩
        | some result =>
            refine ⟨trivial, bounded, ?_⟩
            intro loaded _ ended
            cases ended
            refine typed_of_decode ?_ decoded
            exact lt_of_le_of_lt (List.length_take_le' _ _) small
  | corrupt =>
      refine ⟨trivial, ?_, fun _ _ => by simp [Loader.step]⟩
      intro data left
      unfold Loader.step at left
      cases ok with
      | true => cases left
      | false => exact bounded data left
  | ended before => exact ⟨trivial, bounded, fun _ going => absurd rfl (going before)⟩

/-! ## Loading without interruption -/

def run (loader : Loader) (file : Option Bytes) (calls : List Bool) : Loader × Option Bytes :=
  calls.foldl (fun state ok => state.1.step state.2 ok) (loader, file)

/-- When nothing comes between its calls, the loader is `wakeup_room`. -/
theorem run_eq_wakeupRoom (held : FiniteMap Bytes Record) (file : Option Bytes)
    (calls : FileCalls) :
    run .start file [calls.stat, calls.opened, calls.read, calls.renamed] =
      (.ended (if (wakeupRoom held file calls).loaded then
          some (wakeupRoom held file calls).keys else none),
        (wakeupRoom held file calls).file) := by
  rcases calls with ⟨stat, opened, read, renamed⟩
  cases file with
  | none => cases stat <;> rfl
  | some data =>
      cases stat with
      | false => rfl
      | true =>
          cases opened with
          | false => rfl
          | true =>
              have opened : run .start (some data) [true, true, read, renamed] =
                  run (.opened data.length data) (some data) [read, renamed] := rfl
              have nonempty : 0 < data.length ↔ data ≠ [] := List.length_pos_iff
              rw [opened]
              simp only [run, List.foldl_cons, List.foldl_nil, Loader.step]
              by_cases failed : data ≠ [] ∧ read = false
              · have kept : wakeupRoom held (some data) ⟨true, true, read, renamed⟩ =
                    { keys := held, file := some data, loaded := false } := by
                  simp [wakeupRoom, failed.1, failed.2]
                rw [if_pos ⟨nonempty.mpr failed.1, .inl failed.2⟩, kept]
                rfl
              · have loads : ¬(0 < data.length ∧ (read = false ∨ data.length < data.length)) := by
                  rintro ⟨content, unread | short⟩
                  · exact failed ⟨nonempty.mp content, unread⟩
                  · exact Nat.lt_irrefl _ short
                have tried : (!true || !true || (decide (data ≠ []) && !read)) = false := by
                  rw [Bool.eq_false_iff]
                  simpa using failed
                rw [if_neg loads, List.take_length, wakeupRoom]
                dsimp only
                rw [if_neg (Bool.eq_false_iff.mp tried)]
                cases decoded : decode data with
                | none => cases renamed <;> rfl
                | some loaded => rfl

/-- The one step in which `Db.childStep` reads a snapshot is the child's loader, from a size
that was taken before: a longer file is renamed aside, a shorter one cannot be read, and
one of that size is loaded. -/
theorem run_sized (typed : Typed keys) (size : Nat) :
    (size < (encode keys).length →
        run (.sized size) (some (encode keys)) [true, true, true] = (.ended none, none)) ∧
      ((encode keys).length < size → run (.sized size) (some (encode keys)) [true, true, true] =
        (.ended none, some (encode keys))) ∧
      (size = (encode keys).length → ∃ loaded, SameKeys loaded keys ∧
        run (.sized size) (some (encode keys)) [true, true, true] =
          (.ended (some loaded), some (encode keys))) := by
  have opened : ∀ calls, run (.sized size) (some (encode keys)) (true :: calls) =
      run (.opened size (encode keys)) (some (encode keys)) calls := fun _ => rfl
  refine ⟨fun longer => ?_, fun shorter => ?_, fun whole => ?_⟩
  · have cut : decode ((encode keys).take size) = none :=
      decode_cut typed.fits typed.few_pairs (List.take_append_drop size _)
        (by rw [← List.length_pos_iff, List.length_drop]; omega)
    rw [opened]
    simp only [run, List.foldl_cons, List.foldl_nil, Loader.step]
    rw [if_neg, cut]
    · rfl
    · rintro ⟨_, failed | short⟩
      · cases failed
      · omega
  · rw [opened]
    simp only [run, List.foldl_cons, List.foldl_nil, Loader.step]
    rw [if_pos ⟨by omega, .inr shorter⟩]
  · rcases decode_kept typed with ⟨loaded, decoded, same, _⟩
    refine ⟨loaded, same, ?_⟩
    rw [opened, whole]
    simp only [run, List.foldl_cons, List.foldl_nil, Loader.step]
    rw [if_neg, List.take_length, decoded]
    · rfl
    · rintro ⟨_, failed | short⟩
      · cases failed
      · exact Nat.lt_irrefl _ short

end Loader

/-- The size by which `Db.childStep` compares is that of the file. -/
theorem length_encode_eq_snapshotSize (keys : FiniteMap Bytes Record) :
    (encode keys).length = Db.snapshotSize keys := by
  have sizes : ∀ pairs : List (Bytes × Record), (encodeRecords pairs).length =
      (pairs.map fun entry => 36 + entry.1.length + entry.2.value.length).sum := by
    intro pairs
    induction pairs with
    | nil => rfl
    | cons pair rest induction =>
        change (encodeRecord pair.1 pair.2 ++ encodeRecords rest).length = _
        rw [List.length_append, induction, List.map_cons, List.sum_cons]
        simp only [encodeRecord, List.length_append, length_littleEndian]
        omega
  rw [length_encode, sizes]
  rfl

/-- The file of a room after `childReadSnapshot` is there exactly when the loader leaves it. -/
theorem childReadSnapshot_file (db : Db) (child : RewriteChild) (now size : Nat) (name : Bytes)
    (rest : List (Bytes × Room)) {keys : FiniteMap Bytes Record} (typed : Typed keys)
    (found : db.snapshots.lookup name = some keys) :
    ((db.childReadSnapshot child now size name rest).snapshots.lookup name).map encode =
      (Loader.run (.sized size) (some (encode keys)) [true, true, true]).2 := by
  rcases Loader.run_sized typed size with ⟨longer, shorter, whole⟩
  have length := length_encode_eq_snapshotSize keys
  unfold Db.childReadSnapshot
  rw [found]
  dsimp only
  by_cases same : Db.snapshotSize keys = size
  · rw [if_pos same]
    rcases whole (by omega) with ⟨loaded, _, ran⟩
    rw [ran]
    exact congrArg (Option.map encode) found
  · rw [if_neg same]
    dsimp only
    by_cases grown : size < Db.snapshotSize keys
    · rw [if_pos grown]
      rw [longer (by omega), FiniteMap.lookup_erase_if, if_pos rfl]
      rfl
    · rw [if_neg grown]
      rw [shorter (by omega), found]
      rfl

namespace SharedSnapshots

/-! ## The invariant -/

/-- What is known of a room and its file. -/
structure Kept (room : SharedRoom) : Prop where
  file : ∀ keys, room.kept = some keys → room.file = some (encode keys)
  typed : ∀ keys, room.kept = some keys → Typed keys
  small : room.kept = none → ∀ data, room.file = some data → data.length < 2 ^ 64
  awake : ∀ keys, room.use = .awake keys → Typed keys
  waking : ∀ loader, room.use = .waking loader →
    (∀ keys, room.kept = some keys → loader.OnCourse keys) ∧
      (room.kept = none → loader.Small ∧ ∀ loaded, loader ≠ .ended loaded)

/-- The child has seen the files as they are, unless the room it reads has been replaced. -/
structure Sound (state : SharedSnapshots) : Prop where
  rooms : ∀ name, Kept (state.room name)
  reading : ∀ name rest, state.child.todo = name :: rest → state.child.replaced = false →
    ∀ keys, (state.room name).kept = some keys → state.child.loader.OnCourse keys
  replaced : state.child.replaced = true → ∃ name rest keys,
    state.child.todo = name :: rest ∧ (state.room name).kept = some keys

theorem room_setRoom (state : SharedSnapshots) (name other : Bytes) (room : SharedRoom) :
    (state.setRoom name room).room other = if other = name then room else state.room other := by
  unfold setRoom SharedSnapshots.room
  rw [FiniteMap.lookup_insert_if]
  by_cases same : other = name
  · simp only [if_pos same]
    rfl
  · simp only [if_neg same]

/-- The rooms of a node that changes one of them. -/
theorem kept_setRoom {state : SharedSnapshots} (rooms : ∀ name, Kept (state.room name))
    {name : Bytes} {room : SharedRoom} (kept : Kept room) (other : Bytes) :
    Kept ((state.setRoom name room).room other) := by
  rw [room_setRoom]
  by_cases same : other = name
  · rw [if_pos same]
    exact kept
  · rw [if_neg same]
    exact rooms other

/-- The node does something with a room that leaves its last snapshot the same. -/
theorem Sound.setRoom {state : SharedSnapshots} (sound : Sound state) {name : Bytes}
    {room : SharedRoom} (kept : Kept room) (same : room.kept = (state.room name).kept) :
    Sound (state.setRoom name room) := by
  have unchanged : ∀ other, ((state.setRoom name room).room other).kept =
      (state.room other).kept := by
    intro other
    rw [room_setRoom]
    by_cases here : other = name
    · rw [if_pos here]
      rw [here, same]
    · rw [if_neg here]
  refine ⟨kept_setRoom sound.rooms kept, ?_, ?_⟩
  · intro head rest todo fresh keys known
    rw [unchanged] at known
    exact sound.reading head rest todo fresh keys known
  · intro replaced
    rcases sound.replaced replaced with ⟨head, rest, keys, todo, known⟩
    exact ⟨head, rest, keys, todo, (unchanged head).trans known⟩

/-! ## Steps of the node -/

theorem typed_empty : Typed ∅ where
  fits := by
    intro key record stored
    cases stored
  few := Nat.two_pow_pos 64

/-- The room when its loader has ended. -/
theorem Kept.wokenUp {room : SharedRoom} (kept : Kept room) {file : Option Bytes}
    {loaded : FiniteMap Bytes Record} (typed : Typed loaded)
    (complete : ∀ keys, room.kept = some keys → file = some (encode keys))
    (small : room.kept = none → ∀ data, file = some data → data.length < 2 ^ 64) (fits : Bool) :
    Kept { room with file, use := if fits then .awake loaded else .asleep } := by
  refine ⟨complete, kept.typed, small, ?_, ?_⟩
  · intro keys use
    cases fits with
    | false => cases use
    | true =>
        cases use
        exact typed
  · intro loader use
    cases fits <;> cases use

/-- A room whose snapshot is not known, or of an unknown origin. -/
theorem Kept.wokenUnknown {room : SharedRoom} {loader : Loader} (kept : Kept room)
    (waking : room.use = .waking loader) (unknown : room.kept = none) (ok fits : Bool) :
    Kept (woken room loader ok fits) := by
  rcases (kept.waking loader waking).2 unknown with ⟨small, going⟩
  rcases small.step (kept.small unknown) ok with ⟨next, left, typed⟩
  have never : ∀ keys, room.kept ≠ some keys := by
    intro keys known
    rw [unknown] at known
    cases known
  unfold woken
  rcases stepped : loader.step room.file ok with ⟨after, file⟩
  rw [stepped] at next left typed
  have complete : ∀ keys, room.kept = some keys → file = some (encode keys) :=
    fun keys known => absurd known (never keys)
  have continues : (∀ loaded, after ≠ .ended loaded) →
      Kept { room with file, use := .waking after } := by
    intro unfinished
    refine ⟨complete, kept.typed, fun _ => left, ?_, ?_⟩
    · intro keys use
      cases use
    · intro loader use
      cases use
      exact ⟨fun keys known => absurd known (never keys), fun _ => ⟨next, unfinished⟩⟩
  cases after with
  | ended loaded =>
      cases loaded with
      | none => exact kept.wokenUp typed_empty complete (fun _ => left) fits
      | some loaded => exact kept.wokenUp (typed loaded going rfl) complete (fun _ => left) fits
  | start => exact continues (by simp)
  | sized size => exact continues (by simp)
  | opened size content => exact continues (by simp)
  | corrupt => exact continues (by simp)

/-- A room whose snapshot is complete: it comes to be awake with the records that were put
away, or the next call is due. -/
theorem Kept.wokenKnown {room : SharedRoom} {loader : Loader} {keys : FiniteMap Bytes Record}
    (kept : Kept room) (waking : room.use = .waking loader) (known : room.kept = some keys)
    (ok fits : Bool) :
    Kept (woken room loader ok fits) ∧
      (ok = true → (∃ next, (woken room loader ok fits).use = .waking next ∧
          next.left < loader.left) ∨
        ∃ loaded, (woken room loader ok fits).use = (if fits then .awake loaded else .asleep) ∧
          SameKeys loaded keys) := by
  have course := (kept.waking loader waking).1 keys known
  have typed := kept.typed keys known
  have complete : ∀ others, room.kept = some others → some (encode keys) =
      some (encode others) := by
    intro others same
    rw [known] at same
    cases same
    rfl
  have never : room.kept ≠ none := by
    rw [known]
    exact Option.some_ne_none keys
  unfold woken
  rw [kept.file keys known]
  cases ok with
  | false =>
      rcases course.step_failed with ⟨left, failed⟩
      rcases stepped : loader.step (some (encode keys)) false with ⟨after, file⟩
      rw [stepped] at left failed
      subst left failed
      exact ⟨kept.wokenUp typed_empty complete (fun none => absurd none never) fits,
        fun success => by cases success⟩
  | true =>
      rcases course.step typed with ⟨left, next⟩
      rcases stepped : loader.step (some (encode keys)) true with ⟨after, file⟩
      rw [stepped] at left next
      subst left
      rcases next with ⟨further, closer⟩ | ⟨loaded, ended, same, loadedTyped⟩
      · have continues : Kept { room with file := some (encode keys), use := .waking after } := by
          refine ⟨complete, kept.typed, fun none => absurd none never, ?_, ?_⟩
          · intro others use
            cases use
          · intro loader use
            cases use
            refine ⟨fun others same => ?_, fun none => absurd none never⟩
            rw [known] at same
            cases same
            exact further
        cases after with
        | ended loaded => exact further.elim
        | start => exact ⟨continues, fun _ => .inl ⟨_, rfl, closer⟩⟩
        | sized size => exact ⟨continues, fun _ => .inl ⟨_, rfl, closer⟩⟩
        | opened size content => exact ⟨continues, fun _ => .inl ⟨_, rfl, closer⟩⟩
        | corrupt => exact ⟨continues, fun _ => .inl ⟨_, rfl, closer⟩⟩
      · dsimp only at ended
        subst ended
        exact ⟨kept.wokenUp loadedTyped complete (fun none => absurd none never) fits,
          fun _ => .inr ⟨loaded, rfl, same⟩⟩

theorem Kept.woken {room : SharedRoom} {loader : Loader} (kept : Kept room)
    (waking : room.use = .waking loader) (ok fits : Bool) :
    Kept (woken room loader ok fits) := by
  cases known : room.kept with
  | none => exact kept.wokenUnknown waking known ok fits
  | some keys => exact (kept.wokenKnown waking known ok fits).1

theorem kept_woken (room : SharedRoom) (loader : Loader) (ok fits : Bool) :
    (woken room loader ok fits).kept = room.kept := by
  unfold SharedSnapshots.woken
  split <;> rfl

theorem Sound.write {state : SharedSnapshots} (sound : Sound state) (name : Bytes)
    {keys : FiniteMap Bytes Record} (typed : Typed keys) :
    Sound (state.step (.write name keys)) := by
  unfold step
  dsimp only
  cases (state.room name).use with
  | asleep => exact sound
  | waking loader => exact sound
  | awake before =>
      have kept := sound.rooms name
      refine sound.setRoom ⟨kept.file, kept.typed, kept.small, ?_, ?_⟩ rfl
      · intro others use
        cases use
        exact typed
      · intro loader use
        cases use

theorem Sound.wake {state : SharedSnapshots} (sound : Sound state) (name : Bytes) :
    Sound (state.step (.wake name)) := by
  unfold step
  dsimp only
  cases (state.room name).use with
  | asleep =>
      have kept := sound.rooms name
      refine sound.setRoom ⟨kept.file, kept.typed, kept.small, ?_, ?_⟩ rfl
      · intro keys use
        cases use
      · intro loader use
        cases use
        exact ⟨fun _ _ => trivial, fun _ => ⟨trivial, fun _ same => by cases same⟩⟩
  | waking loader => exact sound
  | awake keys => exact sound

theorem Sound.wakeCall {state : SharedSnapshots} (sound : Sound state) (name : Bytes)
    (ok fits : Bool) : Sound (state.step (.wakeCall name ok fits)) := by
  unfold step
  dsimp only
  cases waking : (state.room name).use with
  | asleep => exact sound
  | waking loader =>
      exact sound.setRoom ((sound.rooms name).woken waking ok fits) (kept_woken _ loader ok fits)
  | awake keys => exact sound

theorem kept_hibernated {keys : FiniteMap Bytes Record} (typed : Typed keys) :
    Kept { file := some (encode keys), use := .asleep, kept := some keys } where
  file := by
    intro others same
    cases same
    rfl
  typed := by
    intro others same
    cases same
    exact typed
  small := by
    intro never
    cases never
  awake := by
    intro others use
    cases use
  waking := by
    intro loader use
    cases use

/-- The state after a snapshot that has been written. -/
def hibernated (state : SharedSnapshots) (name : Bytes) (keys : FiniteMap Bytes Record) :
    SharedSnapshots :=
  { state.setRoom name { file := some (encode keys), use := .asleep, kept := some keys } with
    child :=
      { state.child with
        replaced := state.child.replaced || state.child.todo.head? == some name } }

theorem room_hibernated (state : SharedSnapshots) (name other : Bytes)
    (keys : FiniteMap Bytes Record) : (state.hibernated name keys).room other =
      if other = name then { file := some (encode keys), use := .asleep, kept := some keys }
      else state.room other :=
  room_setRoom state name other _

theorem Sound.hibernated {state : SharedSnapshots} (sound : Sound state) (name : Bytes)
    {keys : FiniteMap Bytes Record} (typed : Typed keys) :
    Sound (state.hibernated name keys) := by
  refine ⟨kept_setRoom sound.rooms (kept_hibernated typed), ?_, ?_⟩
  · intro head rest todo fresh others known
    rcases Bool.or_eq_false_iff.mp fresh with ⟨before, here⟩
    have elsewhere : head ≠ name := by
      intro same
      have first : state.child.todo.head? = some name := by
        rw [show state.child.todo = head :: rest from todo, same]
        rfl
      rw [first, beq_self_eq_true] at here
      cases here
    rw [room_hibernated, if_neg elsewhere] at known
    exact sound.reading head rest todo before others known
  · intro replaced
    rcases (Bool.or_eq_true _ _).mp replaced with before | now
    · rcases sound.replaced before with ⟨head, rest, others, todo, known⟩
      refine ⟨head, rest, if head = name then keys else others, todo, ?_⟩
      rw [room_hibernated]
      by_cases equal : head = name
      · simp only [if_pos equal]
      · simp only [if_neg equal]
        exact known
    · rcases List.head?_eq_some_iff.mp (beq_iff_eq.mp now) with ⟨rest, todo⟩
      refine ⟨name, rest, keys, todo, ?_⟩
      rw [room_hibernated, if_pos rfl]

/-- A hibernation puts a complete snapshot under the name, or changes nothing. -/
theorem Sound.hibernate {state : SharedSnapshots} (sound : Sound state) (name : Bytes)
    (calls : SaveCalls) : Sound (state.step (.hibernate name calls)) := by
  unfold step
  dsimp only
  cases awake : (state.room name).use with
  | asleep => exact sound
  | waking loader => exact sound
  | awake keys =>
      dsimp only
      rcases hibernateRoom_cases { snapshot := (state.room name).file } keys calls with
        saved | ⟨failed, _⟩
      · rw [saved]
        exact sound.hibernated name ((sound.rooms name).awake keys awake)
      · rcases outcome : hibernateRoom { snapshot := (state.room name).file } keys calls with
          ⟨files, done⟩
        have unsaved : done = false := by
          rw [outcome] at failed
          exact failed
        rw [unsaved]
        exact sound

/-! ## Steps of the child -/

/-- The child is about to rename the file of a room that the node has hibernated since the
child took its size. -/
def Misnames (state : SharedSnapshots) : Prop :=
  state.child.todo ≠ [] ∧ state.child.seen = true ∧ state.child.loader = .corrupt ∧
    state.child.replaced = true

instance (loader : Loader) : Decidable (loader = .corrupt) :=
  match loader with
  | .corrupt => isTrue rfl
  | .start | .sized _ | .opened _ _ | .ended _ => isFalse nofun

instance (state : SharedSnapshots) : Decidable state.Misnames :=
  inferInstanceAs (Decidable (_ ∧ _ ∧ _ ∧ _))

/-- The child turns to the next room. -/
theorem Sound.nextRoom {state : SharedSnapshots} (sound : Sound state) (todo : List Bytes) :
    Sound { state with child := { todo } } :=
  ⟨sound.rooms, fun _ _ _ _ _ _ => trivial, fun impossible => by cases impossible⟩

/-- The child goes on with the first room. -/
theorem Sound.goOn {state : SharedSnapshots} (sound : Sound state) {child : SnapshotReader}
    (todo : child.todo = state.child.todo)
    (replaced : child.replaced = true → state.child.replaced = true)
    (reading : ∀ name rest, state.child.todo = name :: rest → child.replaced = false →
      ∀ keys, (state.room name).kept = some keys → child.loader.OnCourse keys) :
    Sound { state with child } :=
  ⟨sound.rooms, fun name rest same => reading name rest (todo ▸ same),
    fun stale => by
      rcases sound.replaced (replaced stale) with ⟨name, rest, keys, same, known⟩
      exact ⟨name, rest, keys, todo.trans same, known⟩⟩

theorem step_file {loader : Loader} (file : Option Bytes) (ok : Bool)
    (notCorrupt : loader ≠ .corrupt) : (loader.step file ok).2 = file := by
  cases loader with
  | corrupt => exact absurd rfl notCorrupt
  | start => rfl
  | sized size => rfl
  | opened size content => rfl
  | ended loaded => rfl

theorem start_of_sized {loader : Loader} {file : Option Bytes} {ok : Bool} {size : Nat}
    (sized : (loader.step file ok).1 = .sized size) : loader = .start := by
  cases loader with
  | start => rfl
  | sized before =>
      unfold Loader.step at sized
      cases ok <;> cases file <;> cases sized
  | opened before content =>
      unfold Loader.step at sized
      dsimp only at sized
      by_cases unread : 0 < before ∧ (ok = false ∨ content.length < before)
      · rw [if_pos unread] at sized
        cases sized
      · rw [if_neg unread] at sized
        cases decoded : decode (content.take before) <;> rw [decoded] at sized <;> cases sized
  | corrupt => cases sized
  | ended loaded => cases sized

/-- The calls of a loader on course that leave it unfinished keep it on course. -/
theorem onCourse_step {loader : Loader} {keys : FiniteMap Bytes Record} (typed : Typed keys)
    (course : loader.OnCourse keys) (ok : Bool)
    (unfinished : ∀ loaded, (loader.step (some (encode keys)) ok).1 ≠ .ended loaded) :
    (loader.step (some (encode keys)) ok).1.OnCourse keys := by
  cases ok with
  | false => exact absurd course.step_failed.2 (unfinished none)
  | true =>
      rcases (course.step typed).2 with ⟨further, _⟩ | ⟨loaded, ended, _⟩
      · exact further
      · exact absurd ended (unfinished (some loaded))

theorem Sound.childCall {state : SharedSnapshots} (sound : Sound state) (ok : Bool)
    (spares : ¬ state.Misnames) : Sound (state.step (.childCall ok)) := by
  change Sound (state.childCall ok)
  unfold SharedSnapshots.childCall
  cases todo : state.child.todo with
  | nil => exact sound
  | cons name rest =>
      have here := sound.rooms name
      dsimp only
      by_cases unseen : state.child.seen = false
      · rw [if_pos unseen]
        by_cases finds : (ok && (state.room name).file.isSome) = true
        · rw [if_pos finds]
          exact sound.goOn rfl id fun head more same fresh => sound.reading head more same fresh
        · rw [if_neg finds]
          exact sound.nextRoom rest
      · rw [if_neg unseen]
        have seen : state.child.seen = true := Bool.eq_true_of_not_eq_false unseen
        have course := sound.reading name rest todo
        have ended : ∀ file, Kept { state.room name with file } →
            Sound { state.setRoom name { state.room name with file } with child := { todo := [] } } :=
          fun file kept => (sound.setRoom kept rfl).nextRoom []
        by_cases corrupt : state.child.loader = .corrupt
        · -- The file of a snapshot that is known is not renamed: the child would have decoded it.
          have fresh : state.child.replaced = false := by
            refine Bool.eq_false_of_not_eq_true fun stale => spares ⟨?_, seen, corrupt, stale⟩
            rw [todo]
            exact List.cons_ne_nil name rest
          have unknown : ∀ keys, (state.room name).kept ≠ some keys := by
            intro keys known
            have impossible := course fresh keys known
            rw [corrupt] at impossible
            exact impossible
          rw [corrupt]
          refine ended _ ⟨fun keys known => absurd known (unknown keys), here.typed, ?_,
            here.awake, here.waking⟩
          intro none data left
          cases ok with
          | true => cases left
          | false => exact here.small none data left
        · have file := step_file (state.room name).file ok corrupt
          -- Whatever the next call is, a loader on course stays on course.
          have onward : ∀ next, (state.child.loader.step (state.room name).file ok).1 = next →
              (∀ loaded, next ≠ .ended loaded) →
              (state.child.loader = .start ∨ state.child.replaced = false) →
              ∀ keys, (state.room name).kept = some keys → next.OnCourse keys := by
            intro next stepped unfinished fresh keys known
            have before : state.child.loader.OnCourse keys := by
              rcases fresh with start | fresh
              · rw [start]
                trivial
              · exact course fresh keys known
            rw [here.file keys known] at stepped
            subst stepped
            exact onCourse_step (here.typed keys known) before ok unfinished
          have goesOn : ∀ next, (state.child.loader.step (state.room name).file ok).1 = next →
              (∀ loaded, next ≠ .ended loaded) →
              Sound { state with child := { state.child with loader := next } } := by
            intro next stepped unfinished
            refine sound.goOn rfl id ?_
            intro head more same fresh keys known
            rw [todo] at same
            cases same
            exact onward next stepped unfinished (.inr fresh) keys known
          rcases stepped : state.child.loader.step (state.room name).file ok with ⟨next, left⟩
          rw [stepped] at file
          dsimp only at file
          subst file
          have first := congrArg Prod.fst stepped
          cases next with
          | ended loaded =>
              cases loaded with
              | none => exact ended _ here
              | some loaded => exact sound.nextRoom rest
          | sized size =>
              refine sound.goOn rfl (fun stale => by cases stale) ?_
              intro head more same _ keys known
              rw [todo] at same
              cases same
              exact onward _ first (by simp) (.inl (start_of_sized first)) keys known
          | start => exact goesOn _ first (by simp)
          | opened size content => exact goesOn _ first (by simp)
          | corrupt => exact goesOn _ first (by simp)

/-! ## Runs -/

/-- The records that commands write have the types of the source. -/
def TypedStep : SharedStep → Prop
  | .write _ keys => SnapshotManager.Typed keys
  | _ => True

/-- No step of the child renames a file that has been replaced. -/
def Spared : SharedSnapshots → List SharedStep → Prop
  | _, [] => True
  | state, step :: rest =>
      ((∃ ok, step = .childCall ok) → ¬ state.Misnames) ∧ Spared (state.step step) rest

instance (step : SharedStep) : Decidable (∃ ok, step = .childCall ok) :=
  match step with
  | .childCall ok => isTrue ⟨ok, rfl⟩
  | .write _ _ | .wake _ | .wakeCall _ _ _ | .hibernate _ _ => isFalse nofun

instance decidableSpared : ∀ state steps, Decidable (Spared state steps)
  | _, [] => isTrue trivial
  | state, step :: rest =>
      have := decidableSpared (state.step step) rest
      inferInstanceAs (Decidable ((_ → _) ∧ _))

theorem Sound.step {state : SharedSnapshots} (sound : Sound state) (step : SharedStep)
    (typed : TypedStep step) (spares : (∃ ok, step = .childCall ok) → ¬ state.Misnames) :
    Sound (state.step step) := by
  cases step with
  | write name keys => exact sound.write name typed
  | wake name => exact sound.wake name
  | wakeCall name ok fits => exact sound.wakeCall name ok fits
  | hibernate name calls => exact sound.hibernate name calls
  | childCall ok => exact sound.childCall ok (spares ⟨ok, rfl⟩)

theorem Sound.run {state : SharedSnapshots} (sound : Sound state) (steps : List SharedStep)
    (typed : ∀ step ∈ steps, TypedStep step) (spared : Spared state steps) :
    Sound (state.run steps) := by
  induction steps generalizing state with
  | nil => exact sound
  | cons step rest induction =>
      have stepped := sound.step step (typed step List.mem_cons_self) spared.1
      exact induction stepped (fun other member => typed other (List.mem_cons_of_mem _ member))
        spared.2

/-! ## The main result -/

/-- The state at the fork: the known snapshots are complete. -/
structure AtFork (state : SharedSnapshots) : Prop where
  rooms : ∀ name, Kept (state.room name)
  loader : state.child.loader = .start
  replaced : state.child.replaced = false

theorem AtFork.sound {state : SharedSnapshots} (fork : AtFork state) : Sound state := by
  refine ⟨fork.rooms, fun _ _ _ _ keys _ => ?_, fun stale => ?_⟩
  · rw [fork.loader]
    trivial
  · rw [fork.replaced] at stale
    cases stale

/-- What the child's rename would do to the file of the first room. -/
theorem room_childCall_corrupt {state : SharedSnapshots} {name : Bytes} {rest : List Bytes}
    (todo : state.child.todo = name :: rest) (seen : state.child.seen = true)
    (corrupt : state.child.loader = .corrupt) :
    ((state.step (.childCall true)).room name).file = none := by
  change ((state.childCall true).room name).file = none
  unfold SharedSnapshots.childCall
  rw [todo]
  dsimp only
  rw [if_neg (by rw [seen]; exact fun same => by cases same), corrupt]
  change ((state.setRoom name _).room name).file = none
  rw [room_setRoom, if_pos rfl]
  rfl

/-- In every run in which the child renames no file that was replaced since it took its
size, complete snapshots stay under their names and rooms wake with the keys they had. A
rename takes away a complete snapshot exactly when the file has been replaced. -/
theorem snapshots_survive (start : SharedSnapshots) (fork : AtFork start)
    (steps : List SharedStep) (typed : ∀ step ∈ steps, TypedStep step)
    (spared : Spared start steps) :
    (∀ name keys, ((start.run steps).room name).kept = some keys →
      ((start.run steps).room name).file = some (encode keys)) ∧
    (∀ name keys loader fits, ((start.run steps).room name).kept = some keys →
      ((start.run steps).room name).use = .waking loader →
      (∃ next, (((start.run steps).step (.wakeCall name true fits)).room name).use =
          .waking next ∧ next.left < loader.left) ∨
        ∃ loaded, (((start.run steps).step (.wakeCall name true fits)).room name).use =
          (if fits then .awake loaded else .asleep) ∧ SameKeys loaded keys) ∧
    ∀ name rest, (start.run steps).child.todo = name :: rest →
      (start.run steps).child.seen = true → (start.run steps).child.loader = .corrupt →
      ((∃ keys, ((start.run steps).room name).kept = some keys ∧
          ((start.run steps).room name).file = some (encode keys) ∧
          (((start.run steps).step (.childCall true)).room name).file = none) ↔
        (start.run steps).child.replaced = true) := by
  have sound := fork.sound.run steps typed spared
  refine ⟨fun name keys known => (sound.rooms name).file keys known, ?_, ?_⟩
  · intro name keys loader fits known waking
    have stepped : ((start.run steps).step (.wakeCall name true fits)).room name =
        woken ((start.run steps).room name) loader true fits := by
      unfold step
      dsimp only
      rw [waking]
      dsimp only
      rw [room_setRoom, if_pos rfl]
    rw [stepped]
    exact ((sound.rooms name).wokenKnown waking known true fits).2 rfl
  · intro name rest todo seen corrupt
    constructor
    · rintro ⟨keys, known, _, _⟩
      refine Bool.eq_true_of_not_eq_false fun fresh => ?_
      have impossible := sound.reading name rest todo fresh keys known
      rw [corrupt] at impossible
      exact impossible
    · intro stale
      rcases sound.replaced stale with ⟨head, more, keys, same, known⟩
      rw [todo] at same
      cases same
      exact ⟨keys, known, (sound.rooms name).file keys known,
        room_childCall_corrupt todo seen corrupt⟩

/-! ## Runs with a room -/

def oneKey : FiniteMap Bytes Record :=
  AList.insert (ascii "k") { value := ascii "a" } ∅

def twoKeys : FiniteMap Bytes Record :=
  AList.insert (ascii "j") { value := ascii "b" } oneKey

/-- A room is asleep at the fork with one key. -/
def oneAsleep : SharedSnapshots where
  rooms := AList.insert (ascii "r") { file := some (encode oneKey), kept := some oneKey } ∅
  child := { todo := [ascii "r"] }

theorem typed_oneKey : Typed oneKey where
  fits := by
    intro key record stored
    unfold oneKey at stored
    rw [FiniteMap.lookup_insert_if] at stored
    by_cases same : key = ascii "k"
    · rw [if_pos same] at stored
      cases stored
      subst same
      exact ⟨by decide, by decide, by decide, by decide, by decide⟩
    · rw [if_neg same] at stored
      cases stored
  few := by decide

theorem typed_twoKeys : Typed twoKeys where
  fits := by
    intro key record stored
    unfold twoKeys at stored
    rw [FiniteMap.lookup_insert_if] at stored
    by_cases same : key = ascii "j"
    · rw [if_pos same] at stored
      cases stored
      subst same
      exact ⟨by decide, by decide, by decide, by decide, by decide⟩
    · rw [if_neg same] at stored
      exact typed_oneKey.fits key record stored
  few := by decide

/-- Of a snapshot that the node has not written nothing is known. -/
theorem kept_found {file : Option Bytes} (small : ∀ data, file = some data → data.length < 2 ^ 64) :
    Kept { file } where
  file keys known := by cases known
  typed keys known := by cases known
  small _ := small
  awake keys use := by cases use
  waking loader use := by cases use

/-- At the fork one room is asleep, and the snapshot of another is damaged. -/
def oneDamaged : SharedSnapshots where
  rooms := AList.insert (ascii "s") { file := some (ascii "damaged") } oneAsleep.rooms
  child := { todo := [ascii "r", ascii "s"] }

theorem atFork_oneDamaged : AtFork oneDamaged := by
  refine ⟨fun name => ?_, rfl, rfl⟩
  unfold room oneDamaged oneAsleep
  rw [FiniteMap.lookup_insert_if, FiniteMap.lookup_insert_if]
  by_cases second : name = ascii "s"
  · rw [if_pos second]
    apply kept_found
    intro data found
    cases found
    decide
  · rw [if_neg second]
    by_cases first : name = ascii "r"
    · rw [if_pos first]
      exact kept_hibernated typed_oneKey
    · rw [if_neg first]
      apply kept_found
      intro data found
      cases found

/-- The child finds the file of the first room; the node wakes the room, adds a key and
hibernates it; the child loads what the node has written, and it renames the damaged file. -/
def damagedRenamed : List SharedStep :=
  [.childCall true, .wake (ascii "r"), .wakeCall (ascii "r") true true,
    .wakeCall (ascii "r") true true, .wakeCall (ascii "r") true true,
    .write (ascii "r") twoKeys, .hibernate (ascii "r") {}, .childCall true, .childCall true,
    .childCall true, .childCall true, .childCall true, .childCall true, .childCall true,
    .childCall true]

theorem kept_damagedRenamed :
    ((oneDamaged.run damagedRenamed).room (ascii "r")).kept = some twoKeys := by
  have entries : ((oneDamaged.run damagedRenamed).room (ascii "r")).kept.map AList.entries =
      some twoKeys.entries := by decide +kernel
  rw [Option.map_eq_some_iff] at entries
  rcases entries with ⟨keys, kept, same⟩
  rw [kept, AList.ext same]

theorem snapshots_survive_sample :
    ((oneDamaged.run damagedRenamed).room (ascii "s")).file = none ∧
      ((oneDamaged.run damagedRenamed).room (ascii "r")).file = some (encode twoKeys) := by
  have typed : ∀ step ∈ damagedRenamed, TypedStep step := by
    intro step member
    simp only [damagedRenamed, List.mem_cons, List.not_mem_nil, or_false] at member
    rcases member with rfl | rfl | rfl | rfl | rfl | rfl | rfl | rfl | rfl | rfl | rfl | rfl |
      rfl | rfl | rfl
    case inr.inr.inr.inr.inr.inl => exact typed_twoKeys
    all_goals trivial
  have spared : Spared oneDamaged damagedRenamed := by decide +kernel
  constructor
  · decide +kernel
  · exact (snapshots_survive oneDamaged atFork_oneDamaged damagedRenamed typed spared).1
      (ascii "r") twoKeys kept_damagedRenamed

/-- The child takes the size of the file; the node wakes the room, adds a key and hibernates
it again; what the child reads of the longer file is corrupt, and it renames it. -/
def grownMeanwhile : List SharedStep :=
  [.childCall true, .childCall true, .wake (ascii "r"), .wakeCall (ascii "r") true true,
    .wakeCall (ascii "r") true true, .wakeCall (ascii "r") true true,
    .write (ascii "r") twoKeys, .hibernate (ascii "r") {}, .childCall true, .childCall true,
    .childCall true]

/-- The keys of the room are gone when it wakes. -/
theorem child_renames_snapshot :
    ((oneAsleep.run grownMeanwhile).room (ascii "r")).kept.map AList.entries =
        some twoKeys.entries ∧
      ((oneAsleep.run grownMeanwhile).room (ascii "r")).file = none ∧
      (((oneAsleep.run grownMeanwhile).run [.wake (ascii "r"),
        .wakeCall (ascii "r") true true]).room (ascii "r")).use.keys.map AList.entries =
          some [] := by
  decide +kernel

end SharedSnapshots

end SomniumDB
