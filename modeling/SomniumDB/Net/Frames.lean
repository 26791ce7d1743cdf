import SomniumDB.Net.Connection

/-! # What a turn leaves alone

A turn is made of commands and of a few operations on the connection that is served. What
each of these keeps, every turn keeps, whatever the connections are in. -/

namespace SomniumDB.Net.Hosts

open Bytes

variable {S : Type v} {T : Type w} {σ : Type u} [Hosts S σ] [Hosts T σ]

/-- The operations around the commands of a turn. -/
structure Frames (fd : Nat) (keeps : S → S → Prop) : Prop where
  refl : ∀ state, keeps state state
  trans : ∀ {first second third}, keeps first second → keeps second third → keeps first third
  enqueue : ∀ state data,
    keeps state (withServer state ((server state).enqueueOutput fd data).1)
  flush : ∀ state, keeps state (withServer state ((server state).flushOutput fd).1)
  erase : ∀ state pos, keeps state (withServer state ((server state).eraseInput fd pos))
  answered : ∀ state,
    keeps state (withServer state ((server state).putClient fd
      { (server state).client fd with outcome := .answered }))

variable {fd : Nat} {keeps : S → S → Prop} {handle : S → List Bytes → S × Bytes}

theorem Frames.mono (frames : Frames fd keeps) {weaker : S → S → Prop}
    (trans : ∀ {first second third}, weaker first second → weaker second third →
      weaker first third)
    (implied : ∀ {state after}, keeps state after → weaker state after) :
    Frames fd weaker where
  refl state := implied (frames.refl state)
  trans := trans
  enqueue state data := implied (frames.enqueue state data)
  flush state := implied (frames.flush state)
  erase state pos := implied (frames.erase state pos)
  answered state := implied (frames.answered state)

theorem Frames.flushErased (frames : Frames fd keeps) (state : S) (pos : Nat) :
    keeps state (withServer state (((server state).eraseInput fd pos).flushOutput fd).1) := by
  have erases := frames.erase state pos
  have flushes := frames.flush (withServer state ((server state).eraseInput fd pos))
  rw [server_withServer, withServer_withServer] at flushes
  exact frames.trans erases flushes

theorem Frames.finish (frames : Frames fd keeps) (state : S) (reply : Bytes) :
    keeps state (withServer state ((server state).finish fd reply).1) := by
  have queues := frames.enqueue state reply
  unfold Server.finish
  cases enqueued : (server state).enqueueOutput fd reply with
  | mk queued accepted =>
      rw [enqueued] at queues
      cases accepted with
      | false => exact queues
      | true =>
          have flushes := frames.flush (withServer state queued)
          rw [server_withServer, withServer_withServer] at flushes
          have marks := frames.answered (withServer state (queued.flushOutput fd).1)
          rw [server_withServer, withServer_withServer] at marks
          exact frames.trans queues (frames.trans flushes marks)

theorem Frames.finishErased (frames : Frames fd keeps) (state : S) (pos : Nat) (reply : Bytes) :
    keeps state (withServer state (((server state).eraseInput fd pos).finish fd reply).1) := by
  have erases := frames.erase state pos
  have finishes := frames.finish (withServer state ((server state).eraseInput fd pos)) reply
  rw [server_withServer, withServer_withServer] at finishes
  exact frames.trans erases finishes

theorem Frames.afterLoop (frames : Frames fd keeps) (handle : S → List Bytes → S × Bytes)
    (state : S) :
    keeps (processLoop handle fd maxCommandsPerTurn 0 state).1
      (processBuffered handle state fd).1 := by
  unfold processBuffered
  rcases processLoop handle fd maxCommandsPerTurn 0 state with ⟨processed, pos, ending⟩
  have flushes := frames.flushErased processed pos
  cases flushing : ((server processed).eraseInput fd pos).flushOutput fd with
  | mk flushed result =>
      rw [flushing] at flushes
      cases ending with
      | overflow => exact frames.refl processed
      | quit => exact frames.finishErased processed pos _
      | malformed => exact frames.finishErased processed pos _
      | budget =>
          simp only [flushing]
          cases result <;> exact flushes
      | waiting =>
          simp only [flushing]
          cases result <;> exact flushes

theorem Frames.processLoop (frames : Frames fd keeps)
    (handles : ∀ state args, keeps state (handle state args).1) (budget pos : Nat) (state : S) :
    keeps state (processLoop handle fd budget pos state).1 := by
  induction budget generalizing pos state with
  | zero => exact frames.refl state
  | succ budget induction =>
      unfold Hosts.processLoop
      cases Resp.parseRequest ((server state).client fd).inBuf pos with
      | needMore => exact frames.refl state
      | malformed => exact frames.refl state
      | complete stop args =>
          dsimp only
          by_cases quits : Server.isQuit args = true
          · rw [if_pos quits]
            exact frames.refl state
          · rw [if_neg quits]
            have answers := handles state args
            cases handled : handle state args with
            | mk answered reply =>
                rw [handled] at answers
                dsimp only
                by_cases silent : reply = []
                · rw [if_pos silent]
                  exact frames.trans answers (induction stop answered)
                · rw [if_neg silent]
                  have queues := frames.trans answers (frames.enqueue answered reply)
                  cases enqueued : (server answered).enqueueOutput fd reply with
                  | mk queued accepted =>
                      rw [enqueued] at queues
                      cases accepted with
                      | false => exact queues
                      | true => exact frames.trans queues (induction stop _)

theorem Frames.processBuffered (frames : Frames fd keeps)
    (handles : ∀ state args, keeps state (handle state args).1) (state : S) :
    keeps state (processBuffered handle state fd).1 :=
  frames.trans (frames.processLoop handles maxCommandsPerTurn 0 state)
    (frames.afterLoop handle state)

/-! ## Two hosts of the same connections -/

/-- A state of the one stands for a state of the other. -/
structure Shows (view : S → T) (handle : S → List Bytes → S × Bytes)
    (shown : T → List Bytes → T × Bytes) : Prop where
  server : ∀ state, server (view state) = server state
  withServer : ∀ state other, view (withServer state other) = withServer (view state) other
  handle : ∀ state args, shown (view state) args =
    (view (handle state args).1, (handle state args).2)

variable {view : S → T} {shown : T → List Bytes → T × Bytes}

theorem Shows.processLoop (shows : Shows view handle shown) (budget pos : Nat) (state : S) :
    Hosts.processLoop shown fd budget pos (view state) =
      (view (Hosts.processLoop handle fd budget pos state).1,
        (Hosts.processLoop handle fd budget pos state).2) := by
  induction budget generalizing pos state with
  | zero => rfl
  | succ budget induction =>
      unfold Hosts.processLoop
      rw [shows.server]
      cases Resp.parseRequest ((Hosts.server state).client fd).inBuf pos with
      | needMore => rfl
      | malformed => rfl
      | complete stop args =>
          dsimp only
          by_cases quits : Server.isQuit args = true
          · rw [if_pos quits, if_pos quits]
          · rw [if_neg quits, if_neg quits, shows.handle]
            cases handle state args with
            | mk answered reply =>
                dsimp only
                by_cases silent : reply = []
                · rw [if_pos silent, if_pos silent]
                  exact induction stop answered
                · rw [if_neg silent, if_neg silent, shows.server]
                  cases (Hosts.server answered).enqueueOutput fd reply with
                  | mk queued accepted =>
                      cases accepted with
                      | false =>
                          dsimp only
                          rw [shows.withServer]
                      | true =>
                          dsimp only
                          rw [← shows.withServer]
                          exact induction stop _

theorem Shows.processBuffered (shows : Shows view handle shown) (state : S) :
    Hosts.processBuffered shown (view state) fd =
      (view (Hosts.processBuffered handle state fd).1,
        (Hosts.processBuffered handle state fd).2) := by
  unfold Hosts.processBuffered
  rw [shows.processLoop]
  rcases Hosts.processLoop handle fd maxCommandsPerTurn 0 state with ⟨processed, pos, ending⟩
  cases ending with
  | overflow => rfl
  | quit =>
      dsimp only
      rw [shows.server, shows.withServer]
  | malformed =>
      dsimp only
      rw [shows.server, shows.withServer]
  | budget =>
      dsimp only
      rw [shows.server]
      cases ((Hosts.server processed).eraseInput fd pos).flushOutput fd with
      | mk flushed result => cases result <;> (dsimp only; rw [shows.withServer])
  | waiting =>
      dsimp only
      rw [shows.server]
      cases ((Hosts.server processed).eraseInput fd pos).flushOutput fd with
      | mk flushed result => cases result <;> (dsimp only; rw [shows.withServer])

end SomniumDB.Net.Hosts
