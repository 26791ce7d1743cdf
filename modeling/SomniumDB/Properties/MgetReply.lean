import SomniumDB.Properties.OutputCap
import SomniumDB.Properties.Replies

/-! # The size of an MGET reply

The loop of `MGET` compares the cap with what it has built and the next value, not with
what surrounds the value, and not at all for an absent key. So a reply can come out larger
than the cap, and is then refused by `enqueue_output`. -/

namespace SomniumDB

open Bytes Resp

namespace Db

/-- What `MGET` finds under the keys, one after another. -/
def mgetValues (db : Db) (now : Nat) (name : Bytes) : List Bytes → List (Option Bytes)
  | [] => []
  | key :: rest =>
      (db.lookup now name key).2.map Record.value ::
        (db.lookup now name key).1.mgetValues now name rest

/-- The element for what is found under a key. -/
def mgetElement (resp3 : Bool) : Option Bytes → Bytes
  | none => nil resp3
  | some value => bulk value

/-- The array of all elements, whatever its size. -/
def fullReply (resp3 : Bool) (values : List (Option Bytes)) : Bytes :=
  42 :: decimal values.length ++ crlf ++ (values.map (mgetElement resp3)).flatten

def tooLarge : Bytes := ascii "-ERR reply too large\r\n"

/-- Every value that is present fits behind the bytes before its element. -/
def valuesFit (resp3 : Bool) : Nat → List (Option Bytes) → Bool
  | _, [] => true
  | size, none :: rest => valuesFit resp3 (size + (nil resp3).length) rest
  | size, some value :: rest =>
      decide (size + value.length ≤ maxReply) &&
        valuesFit resp3 (size + (bulk value).length) rest

variable (db : Db) (now : Nat) (resp3 : Bool) (name : Bytes)

theorem length_mgetValues (keys : List Bytes) : (db.mgetValues now name keys).length = keys.length := by
  induction keys generalizing db with
  | nil => rfl
  | cons key rest induction => exact congrArg Nat.succ (induction _)

/-- The loop builds the array, or ends with the error at the first value that does not
fit. -/
theorem mgetLoop_reply (out : Bytes) (keys : List Bytes) :
    (db.mgetLoop now resp3 name out keys).2 =
      if valuesFit resp3 out.length (db.mgetValues now name keys) then
        out ++ ((db.mgetValues now name keys).map (mgetElement resp3)).flatten
      else tooLarge := by
  induction keys generalizing db out with
  | nil => simp [mgetLoop, Keyspace.mgetLoop, mgetValues, valuesFit]
  | cons key rest induction =>
      unfold mgetLoop Keyspace.mgetLoop mgetValues
      simp only [Keyspace.ofDb]
      rcases db.lookup now name key with ⟨found, _ | record⟩
      · dsimp only
        rw [induction, List.length_append]
        simp only [Option.map_none, valuesFit, List.map_cons, List.flatten_cons, mgetElement,
          List.append_assoc]
      · dsimp only
        simp only [Option.map_some, valuesFit, List.map_cons, List.flatten_cons, mgetElement]
        by_cases large : maxReply < out.length + record.value.length
        · rw [if_pos large]
          have refused : ¬ out.length + record.value.length ≤ maxReply := Nat.not_le.mpr large
          simp only [refused, decide_false, Bool.false_and, Bool.false_eq_true, if_false]
          rfl
        · rw [if_neg large]
          rw [induction, List.length_append]
          simp only [Nat.not_lt.mp large, decide_true, Bool.true_and, List.append_assoc]

theorem length_bulk (value : Bytes) :
    (bulk value).length = (decimal value.length).length + value.length + 5 := by
  have ends : crlf.length = 2 := rfl
  unfold bulk
  simp only [List.length_append, List.length_cons, ends]
  omega

/-- The error is right: the whole is larger than the part that does not fit. -/
theorem large_of_not_valuesFit {size : Nat} {values : List (Option Bytes)}
    (refused : valuesFit resp3 size values = false) :
    maxReply < size + ((values.map (mgetElement resp3)).flatten).length := by
  induction values generalizing size with
  | nil => cases refused
  | cons value rest induction =>
      rw [List.map_cons, List.flatten_cons, List.length_append]
      cases value with
      | none =>
          have later := induction refused
          simp only [mgetElement]
          omega
      | some value =>
          have longer := length_bulk value
          simp only [mgetElement]
          rw [valuesFit, Bool.and_eq_false_iff, decide_eq_false_iff_not] at refused
          rcases refused with large | refused
          · omega
          · have later := induction refused
            omega

/-- The reply is an error, or the array of one element for each key within the cap; a
larger array is refused; and what is replied can be sent to a client that has nothing
pending. -/
structure MgetSound (args : List Bytes) : Prop where
  value : Value resp3 (db.handleMget now resp3 name args).2
  replies :
    args.length < 2 ∧ (db.handleMget now resp3 name args).2 = wrongArguments (ascii "MGET") ∨
      2 ≤ args.length ∧
        if (fullReply resp3 (db.mgetValues now name args.tail)).length ≤ maxReply then
          (db.handleMget now resp3 name args).2 = fullReply resp3 (db.mgetValues now name args.tail)
        else (db.handleMget now resp3 name args).2 = tooLarge
  sendable : ∀ (σ : Type) (server : Net.Server σ) (fd : Nat),
    (server.client fd).closed = false → (server.client fd).session.authenticated = true →
      (server.client fd).pendingOut = 0 →
        server.clientBuffers + (db.handleMget now resp3 name args).2.length ≤
            server.config.maxClientBuffers →
          (server.enqueueOutput fd (db.handleMget now resp3 name args).2).2 = true

/-- The array is larger than the cap, although every value that is present fits behind the
bytes before its element. -/
def Overshoots (args : List Bytes) : Prop :=
  2 ≤ args.length ∧ maxReply < (fullReply resp3 (db.mgetValues now name args.tail)).length ∧
    valuesFit resp3 (42 :: decimal (args.length - 1) ++ crlf).length
      (db.mgetValues now name args.tail) = true

variable {db now resp3 name}

/-- A client without pending output can be sent as much as the cap. -/
theorem sendable_iff {σ : Type} {server : Net.Server σ} {fd : Nat} {reply : Bytes}
    (isOpen : (server.client fd).closed = false)
    (authenticated : (server.client fd).session.authenticated = true)
    (drained : (server.client fd).pendingOut = 0)
    (budget : server.clientBuffers + reply.length ≤ server.config.maxClientBuffers) :
    (server.enqueueOutput fd reply).2 = true ↔ reply.length ≤ maxReply := by
  rw [Net.Server.enqueueOutput_accepts, drained, Net.Client.outputCap, authenticated, Nat.zero_add]
  exact ⟨fun accepted => accepted.2.1, fun fits => ⟨isOpen, fits, budget⟩⟩

theorem handleMget_reply {args : List Bytes} (some : 2 ≤ args.length) :
    (db.handleMget now resp3 name args).2 =
      if valuesFit resp3 (42 :: decimal (args.length - 1) ++ crlf).length
        (db.mgetValues now name args.tail)
      then fullReply resp3 (db.mgetValues now name args.tail) else tooLarge := by
  match args, some with
  | _ :: key :: rest, _ =>
      have reply := db.mgetLoop_reply now resp3 name
        (42 :: decimal (rest.length + 1) ++ crlf) (key :: rest)
      unfold fullReply
      rw [length_mgetValues]
      exact reply

theorem length_fullReply (resp3 : Bool) (values : List (Option Bytes)) :
    (fullReply resp3 values).length = (42 :: decimal values.length ++ crlf).length +
      ((values.map (mgetElement resp3)).flatten).length :=
  List.length_append

/-- An array that is too large is sent all the same. -/
theorem Overshoots.reply {args : List Bytes} (overshoots : Overshoots db now resp3 name args) :
    (db.handleMget now resp3 name args).2 = fullReply resp3 (db.mgetValues now name args.tail) := by
  rw [handleMget_reply overshoots.1, if_pos overshoots.2.2]

theorem Overshoots.not_sound {args : List Bytes} (overshoots : Overshoots db now resp3 name args) :
    ¬ MgetSound db now resp3 name args := by
  intro sound
  have large := overshoots.2.1
  rw [← overshoots.reply] at large
  rcases sound.replies with ⟨few, -⟩ | ⟨-, replied⟩
  · exact absurd overshoots.1 (Nat.not_le.mpr few)
  · rw [if_neg (Nat.not_le.mpr overshoots.2.1)] at replied
    rw [replied] at large
    exact absurd large (by decide)

theorem mgetSound_of_small {args : List Bytes}
    (small : (db.handleMget now resp3 name args).2.length ≤ maxReply)
    (replies : args.length < 2 ∧
        (db.handleMget now resp3 name args).2 = wrongArguments (ascii "MGET") ∨
      2 ≤ args.length ∧
        if (fullReply resp3 (db.mgetValues now name args.tail)).length ≤ maxReply then
          (db.handleMget now resp3 name args).2 = fullReply resp3 (db.mgetValues now name args.tail)
        else (db.handleMget now resp3 name args).2 = tooLarge) :
    MgetSound db now resp3 name args where
  value := db.value_handleMget now name args
  replies := replies
  sendable := fun _ _ _ isOpen authenticated drained budget =>
    (sendable_iff isOpen authenticated drained budget).mpr small

/-- `MGET` answers as it should, unless the array is larger than the cap and every value
that is present fits behind the bytes before its element. -/
theorem mget_reply_iff (db : Db) (now : Nat) (resp3 : Bool) (name : Bytes) (args : List Bytes) :
    MgetSound db now resp3 name args ↔ ¬ Overshoots db now resp3 name args := by
  refine ⟨fun sound overshoots => overshoots.not_sound sound, fun regular => ?_⟩
  have errors : (wrongArguments (ascii "MGET")).length ≤ maxReply ∧ tooLarge.length ≤ maxReply := by
    decide
  by_cases some : 2 ≤ args.length
  · have reply := @handleMget_reply db now resp3 name args some
    have parts := length_fullReply resp3 (db.mgetValues now name args.tail)
    rw [length_mgetValues, List.length_tail] at parts
    cases fit : valuesFit resp3 (42 :: decimal (args.length - 1) ++ crlf).length
        (db.mgetValues now name args.tail) with
    | false =>
        rw [fit, if_neg Bool.false_ne_true] at reply
        have large := large_of_not_valuesFit resp3 fit
        rw [← parts] at large
        refine mgetSound_of_small (by rw [reply]; exact errors.2) (.inr ⟨some, ?_⟩)
        rw [if_neg (Nat.not_le.mpr large)]
        exact reply
    | true =>
        rw [fit, if_pos rfl] at reply
        have within : (fullReply resp3 (db.mgetValues now name args.tail)).length ≤ maxReply :=
          Nat.le_of_not_lt fun large => regular ⟨some, large, fit⟩
        refine mgetSound_of_small (by rw [reply]; exact within) (.inr ⟨some, ?_⟩)
        rw [if_pos within]
        exact reply
  · have reply : (db.handleMget now resp3 name args).2 = wrongArguments (ascii "MGET") := by
      match args, some with
      | [], _ => rfl
      | [_], _ => rfl
      | _ :: _ :: _, some => exact absurd (Nat.le_add_left 2 _) some
    exact mgetSound_of_small (by rw [reply]; exact errors.1) (.inl ⟨Nat.lt_of_not_le some, reply⟩)

/-! ## A value that just fits -/

/-- A node with one key. -/
def holding (value : Bytes) : Db :=
  { config := {}
    rooms := (∅ : FiniteMap Bytes Room).insert (ascii "default")
      { keys := (∅ : FiniteMap Bytes Record).insert (ascii "k") { value }
        state := .active } }

theorem mgetValues_holding (value : Bytes) :
    (holding value).mgetValues 0 (ascii "default") [ascii "k"] = [some value] := by
  rfl

theorem overshoots_holding {value : Bytes} (size : value.length = 33554428) :
    Overshoots (holding value) 0 false (ascii "default") [ascii "MGET", ascii "k"] := by
  have digits : (decimal 33554428).length = 8 := by decide +kernel
  have cap : maxReply = 33554432 := by decide +kernel
  have header : (42 :: decimal 1 ++ crlf).length = 4 := by decide
  have element := length_bulk value
  rw [size, digits] at element
  refine ⟨Nat.le_refl 2, ?_, ?_⟩
  · rw [List.tail_cons, mgetValues_holding, length_fullReply]
    change _ < (42 :: decimal 1 ++ crlf).length + (bulk value ++ []).length
    rw [List.append_nil, header, element, cap]
    decide
  · rw [List.tail_cons, mgetValues_holding]
    change valuesFit false (42 :: decimal 1 ++ crlf).length [some value] = true
    rw [header, valuesFit, valuesFit, size, cap]
    decide

/-- `MGET k` of a value of 32 MB less four bytes is a reply that disconnects the client. -/
theorem mget_disconnects :
    ¬ MgetSound (holding (List.replicate 33554428 0)) 0 false (ascii "default")
      [ascii "MGET", ascii "k"] :=
  (overshoots_holding List.length_replicate).not_sound

end Db

end SomniumDB
