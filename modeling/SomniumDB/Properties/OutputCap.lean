import SomniumDB.Library.Runs
import SomniumDB.Properties.ClientBuffers

/-! # The memory held for the output of a client

`enqueue_output` compares the cap with what is still to be sent, but the buffer keeps what
has been sent until it drains. A client that reads steadily, and never quite catches up,
outgrows the cap in memory and comes to be dropped for output that it has received. -/

namespace SomniumDB.Net

open Bytes

/-- One call of `enqueue_output` or `flush_output`, with how the calls of `send` end. -/
inductive OutputCall
  | enqueue (fd : Nat) (data : Bytes)
  | flush (fd : Nat) (sends : List Send)

/-- The output is in order, and the total has been told of the buffers. -/
structure Client.Steady (client : Client) : Prop extends ordered : Client.Ordered client where
  held : client.held = client.buffered

/-- The memory held for the output is within the cap. -/
def Client.HeldWithinCap (client : Client) : Prop :=
  client.outBuf.length ≤ client.outputCap

namespace Server

variable {σ : Type u} {server after : Server σ} {fd : Nat}

def outputCall (server : Server σ) : OutputCall → Server σ
  | .enqueue fd data => (server.enqueueOutput fd data).1
  | .flush fd sends => ({ server with sends }.flushOutput fd).1

def outputCalls (server : Server σ) (calls : List OutputCall) : Server σ :=
  calls.foldl outputCall server

/-- The same server, had the client's buffer let go of what has been sent. -/
def compacted (server : Server σ) (fd : Nat) : Server σ :=
  let client := server.client fd
  (server.putClient fd
    { client with outBuf := client.outBuf.drop client.outOff, outOff := 0 }).track fd

/-- Only output that has been sent is in the way: the client is dropped for what it has
received. -/
def RefusedForSent (server : Server σ) (fd : Nat) (data : Bytes) : Prop :=
  (server.enqueueOutput fd data).2 = false ∧
    ((server.compacted fd).enqueueOutput fd data).2 = true

/-- Where the data has room beside the output that is still to be sent, it has room beside
the sent output as well. -/
def RoomForSent (server : Server σ) (fd : Nat) (data : Bytes) : Prop :=
  (server.client fd).closed = false →
    (server.client fd).pendingOut + data.length ≤ (server.client fd).outputCap →
      server.clientBuffers - (server.client fd).outOff + data.length ≤
          server.config.maxClientBuffers →
        (server.client fd).outOff + (server.client fd).pendingOut + data.length ≤
            (server.client fd).outputCap ∧
          server.clientBuffers + data.length ≤ server.config.maxClientBuffers

/-! ## One call -/

theorem enqueueOutput_accepts (server : Server σ) (fd : Nat) (data : Bytes) :
    (server.enqueueOutput fd data).2 = true ↔
      (server.client fd).closed = false ∧
        (server.client fd).pendingOut + data.length ≤ (server.client fd).outputCap ∧
          server.clientBuffers + data.length ≤ server.config.maxClientBuffers := by
  unfold enqueueOutput
  dsimp only
  by_cases closed : (server.client fd).closed = true
  · rw [if_pos closed]
    rw [closed]
    simp only [Bool.false_eq_true, Bool.true_eq_false, false_and]
  · rw [if_neg closed]
    by_cases exceeds : (server.client fd).outputCap < (server.client fd).pendingOut + data.length
    · rw [if_pos exceeds]
      simp only [Bool.false_eq_true, false_iff]
      omega
    · rw [if_neg exceeds]
      by_cases full : server.overBufferBudget (data.length) = true
      · rw [if_pos full]
        unfold overBufferBudget at full
        rw [Bool.not_eq_true', decide_eq_false_iff_not] at full
        simp only [Bool.false_eq_true, false_iff]
        exact fun room => full room.2.2
      · rw [if_neg full]
        have room := overBufferBudget_eq_false (Bool.eq_false_of_not_eq_true full)
        simp only [true_iff]
        exact ⟨Bool.eq_false_of_not_eq_true closed, Nat.le_of_not_lt exceeds, room⟩

/-- What is queued is appended, what is refused changes no client. -/
theorem client_enqueueOutput (server : Server σ) (fd : Nat) (data : Bytes) :
    (server.enqueueOutput fd data).1.client fd =
      if (server.enqueueOutput fd data).2 then
        let client := { server.client fd with
          outBuf := (server.client fd).outBuf ++ data
          enqueued := (server.client fd).enqueued ++ data }
        { client with held := client.buffered }
      else server.client fd := by
  unfold enqueueOutput
  dsimp only
  by_cases closed : (server.client fd).closed = true
  · rw [if_pos closed]
    rfl
  · rw [if_neg closed]
    by_cases beyond : (server.client fd).outputCap < (server.client fd).pendingOut + data.length
    · rw [if_pos beyond]
      rfl
    · rw [if_neg beyond]
      by_cases exceeds : server.overBufferBudget (data.length) = true
      · rw [if_pos exceeds]
        rfl
      · rw [if_neg exceeds]
        exact client_track_self server fd _

theorem client_enqueueOutput_other (server : Server σ) {fd other : Nat} (data : Bytes)
    (different : other ≠ fd) :
    (server.enqueueOutput fd data).1.client other = server.client other := by
  unfold enqueueOutput
  dsimp only
  by_cases closed : (server.client fd).closed = true
  · rw [if_pos closed]
  · rw [if_neg closed]
    by_cases beyond : (server.client fd).outputCap < (server.client fd).pendingOut + data.length
    · rw [if_pos beyond]
      rfl
    · rw [if_neg beyond]
      by_cases exceeds : server.overBufferBudget (data.length) = true
      · rw [if_pos exceeds]
        rfl
      · rw [if_neg exceeds]
        exact client_track_other server _ different

theorem clientBuffers_enqueueOutput {data : Bytes}
    (held : (server.client fd).held = (server.client fd).buffered)
    (accepted : (server.enqueueOutput fd data).2 = true) :
    (server.enqueueOutput fd data).1.clientBuffers = server.clientBuffers + data.length := by
  have isOpen := ((enqueueOutput_accepts server fd data).mp accepted).1
  unfold enqueueOutput at accepted ⊢
  dsimp only at accepted ⊢
  rw [isOpen] at accepted ⊢
  by_cases same : false = true
  · rw [if_pos same] at accepted
    cases accepted
  · rw [if_neg same] at accepted
    split at accepted
    · cases accepted
    · split at accepted
      · cases accepted
      · rename_i fits budget
        rw [if_neg Bool.false_ne_true, if_neg fits, if_neg budget]
        change server.clientBuffers - ((server.putClient fd _).client fd).held +
          ((server.putClient fd _).client fd).buffered = _
        rw [client_putClient_self]
        dsimp only
        rw [held]
        unfold Client.buffered
        dsimp only
        rw [isOpen, if_neg Bool.false_ne_true, if_neg Bool.false_ne_true, List.length_append]
        omega

/-- Sending moves the offset, and the buffer is let go of only as a whole. -/
theorem client_flushOutput (server : Server σ) (fd : Nat)
    (held : (server.client fd).held = (server.client fd).buffered) :
    ((server.flushOutput fd).1.client fd).held = ((server.flushOutput fd).1.client fd).buffered ∧
      ((server.flushOutput fd).1.client fd).outBuf.length ≤
        (server.client fd).outBuf.length := by
  rcases flushLoop_fields (server.client fd) server.sends with ⟨outOff, sent, fields, -, -⟩
  unfold flushOutput
  rcases looped : (server.client fd).flushLoop server.sends with ⟨client, result, sends⟩
  rw [looped] at fields
  obtain rfl : client = { server.client fd with outOff, sent } := fields
  have here := client_putClient_self { server with sends } fd
    { server.client fd with outOff, sent }
  cases result with
  | complete =>
      have drained := client_track_self { server with sends } fd
        { server.client fd with outBuf := [], outOff := 0, sent }
      dsimp only
      rw [drained]
      exact ⟨rfl, Nat.zero_le _⟩
  | pending =>
      dsimp only
      rw [here]
      exact ⟨held, Nat.le_refl _⟩
  | dead =>
      have troubled : ∀ server : Server σ, server.trouble.client fd = server.client fd :=
        fun _ => rfl
      dsimp only
      rw [troubled, here]
      exact ⟨held, Nat.le_refl _⟩

/-- Only the calls for a client touch it. -/
theorem client_outputCall (server : Server σ) (fd : Nat) (call : OutputCall) :
    (server.outputCall call).client fd = server.client fd ∨
      (∃ data, call = .enqueue fd data) ∨ ∃ sends, call = .flush fd sends := by
  cases call with
  | enqueue other data =>
      by_cases same : fd = other
      · exact .inr (.inl ⟨data, by rw [same]⟩)
      · exact .inl (client_enqueueOutput_other server data same)
  | flush other sends =>
      by_cases same : fd = other
      · exact .inr (.inr ⟨sends, by rw [same]⟩)
      · exact .inl ((emits_flushOutput { server with sends } other).others fd same)

theorem steady_outputCall (steady : (server.client fd).Steady) (call : OutputCall) :
    ((server.outputCall call).client fd).Steady := by
  rcases client_outputCall server fd call with untouched | ⟨data, rfl⟩ | ⟨sends, rfl⟩
  · rw [untouched]
    exact steady
  · change ((server.enqueueOutput fd data).1.client fd).Steady
    refine ⟨?_, ?_⟩
    · rcases emits_enqueueOutput server fd data with ⟨_, emits, _⟩ | ⟨_, emits, _⟩
      · exact emits.ordered steady.ordered
      · exact emits.ordered steady.ordered
    · rw [client_enqueueOutput]
      by_cases same : (server.enqueueOutput fd data).2 = true
      · rw [if_pos same]
        rfl
      · rw [if_neg same]
        exact steady.held
  · exact ⟨(emits_flushOutput { server with sends } fd).ordered steady.ordered,
      (client_flushOutput { server with sends } fd steady.held).1⟩

/-- What a client is sent never makes its buffer outgrow the cap. -/
theorem heldWithinCap_flushOutput (sends : List Send) (steady : (server.client fd).Steady)
    (within : (server.client fd).HeldWithinCap) :
    ((server.outputCall (.flush fd sends)).client fd).HeldWithinCap := by
  have shorter := (client_flushOutput { server with sends } fd steady.held).2
  have session := (emits_flushOutput { server with sends } fd).session
  have sameCap : ((server.outputCall (.flush fd sends)).client fd).outputCap =
      (server.client fd).outputCap := by
    change (if (Server.client (flushOutput _ fd).1 fd).session.authenticated then _ else _) = _
    rw [session]
    rfl
  unfold Client.HeldWithinCap
  rw [sameCap]
  exact shorter.trans within

theorem compacted_accepts (steady : (server.client fd).Steady) (data : Bytes) :
    ((server.compacted fd).enqueueOutput fd data).2 = true ↔
      (server.client fd).closed = false ∧
        (server.client fd).pendingOut + data.length ≤ (server.client fd).outputCap ∧
          server.clientBuffers - (server.client fd).outOff + data.length ≤
            server.config.maxClientBuffers := by
  rw [enqueueOutput_accepts]
  have here : (server.compacted fd).client fd = _ := client_track_self server fd
    { server.client fd with
      outBuf := (server.client fd).outBuf.drop (server.client fd).outOff, outOff := 0 }
  have pending : ((server.compacted fd).client fd).pendingOut = (server.client fd).pendingOut := by
    rw [here]
    exact List.length_drop
  have cap : ((server.compacted fd).client fd).outputCap = (server.client fd).outputCap := by
    rw [here]
    rfl
  have closed : ((server.compacted fd).client fd).closed = (server.client fd).closed := by
    rw [here]
  rw [pending, cap, closed]
  refine and_congr_right fun isOpen => and_congr_right fun _ => ?_
  have total : (server.compacted fd).clientBuffers =
      server.clientBuffers - (server.client fd).outOff := by
    have within := steady.within
    change server.clientBuffers - ((server.putClient fd _).client fd).held +
      ((server.putClient fd _).client fd).buffered = _
    rw [client_putClient_self]
    dsimp only
    rw [steady.held]
    unfold Client.buffered
    dsimp only
    rw [isOpen, List.length_drop]
    simp only [Bool.false_eq_true, if_false]
    omega
  rw [total]
  rfl

/-- The condition is the exact one, call by call. -/
theorem roomForSent_iff (steady : (server.client fd).Steady)
    (within : (server.client fd).HeldWithinCap) (data : Bytes) :
    server.RoomForSent fd data ↔
      ((server.outputCall (.enqueue fd data)).client fd).HeldWithinCap ∧
        ¬ server.RefusedForSent fd data := by
  have accepts := server.enqueueOutput_accepts fd data
  have compacted := compacted_accepts steady data
  have appended := server.client_enqueueOutput fd data
  have held : (server.client fd).outOff + (server.client fd).pendingOut =
      (server.client fd).outBuf.length := Nat.add_sub_of_le steady.within
  change _ ↔ ((server.enqueueOutput fd data).1.client fd).HeldWithinCap ∧ _
  by_cases fits : (server.client fd).closed = false ∧
      (server.client fd).pendingOut + data.length ≤ (server.client fd).outputCap ∧
        server.clientBuffers - (server.client fd).outOff + data.length ≤
          server.config.maxClientBuffers
  · rcases fits with ⟨isOpen, room, budget⟩
    have roomy : server.RoomForSent fd data ↔
        (server.client fd).outOff + (server.client fd).pendingOut + data.length ≤
            (server.client fd).outputCap ∧
          server.clientBuffers + data.length ≤ server.config.maxClientBuffers :=
      ⟨fun roomFor => roomFor isOpen room budget, fun roomFor _ _ _ => roomFor⟩
    rw [roomy, held]
    by_cases total : server.clientBuffers + data.length ≤ server.config.maxClientBuffers
    · -- the data is queued, behind what has been sent as well
      have accepted := accepts.mpr ⟨isOpen, room, total⟩
      rw [accepted, if_pos rfl] at appended
      have refused : ¬ server.RefusedForSent fd data := fun refused => by
        rw [refused.1] at accepted
        cases accepted
      have grown : ((server.enqueueOutput fd data).1.client fd).HeldWithinCap ↔
          (server.client fd).outBuf.length + data.length ≤ (server.client fd).outputCap := by
        rw [appended, ← List.length_append]
        rfl
      rw [grown]
      exact and_congr_right fun _ => iff_of_true total refused
    · -- only the sent part is in the way
      have rejected : (server.enqueueOutput fd data).2 = false :=
        Bool.eq_false_of_not_eq_true fun accepted => total (accepts.mp accepted).2.2
      refine iff_of_false (fun both => total both.2) fun both => both.2 ⟨rejected, ?_⟩
      exact compacted.mpr ⟨isOpen, room, budget⟩
  · -- the data is refused in any case
    have rejected : (server.enqueueOutput fd data).2 = false := by
      refine Bool.eq_false_of_not_eq_true fun accepted => fits ?_
      rcases accepts.mp accepted with ⟨isOpen, room, budget⟩
      exact ⟨isOpen, room, by omega⟩
    rw [rejected, if_neg Bool.false_ne_true] at appended
    rw [appended]
    refine iff_of_true ?_ ⟨within, fun refused => fits (compacted.mp refused.2)⟩
    exact fun isOpen room budget => absurd ⟨isOpen, room, budget⟩ fits

/-! ## A run of calls -/

/-- Along the calls the memory held stays within the cap, and the client is never dropped
for output it has received. -/
def OutputHeld (server : Server σ) (fd : Nat) (calls : List OutputCall) : Prop :=
  Runs.Throughout outputCall (fun state => (state.client fd).HeldWithinCap) server calls ∧
    Runs.Always outputCall
      (fun state call => ∀ data, call = .enqueue fd data → ¬ state.RefusedForSent fd data)
      server calls

theorem OutputHeld.within {calls : List OutputCall} (held : server.OutputHeld fd calls) :
    ((server.outputCalls calls).client fd).HeldWithinCap :=
  held.1 calls List.prefix_rfl

/-- Wherever something is queued for the client, what has been sent makes no difference. -/
def RoomThroughout (server : Server σ) (fd : Nat) (calls : List OutputCall) : Prop :=
  Runs.Always outputCall
    (fun state call => ∀ data, call = .enqueue fd data → state.RoomForSent fd data)
    server calls

theorem roomForSent_call (steady : (server.client fd).Steady)
    (within : (server.client fd).HeldWithinCap) (call : OutputCall) :
    (∀ data, call = .enqueue fd data → server.RoomForSent fd data) ↔
      ((server.outputCall call).client fd).HeldWithinCap ∧
        ∀ data, call = .enqueue fd data → ¬ server.RefusedForSent fd data := by
  by_cases queues : ∃ data, call = .enqueue fd data
  · rcases queues with ⟨data, rfl⟩
    have only (meets : Bytes → Prop) :
        (∀ other, OutputCall.enqueue fd data = .enqueue fd other → meets other) ↔ meets data :=
      ⟨fun all => all data rfl, by rintro here _ ⟨⟩; exact here⟩
    rw [only, only]
    exact roomForSent_iff steady within data
  · have vacuous (meets : Bytes → Prop) : ∀ data, call = .enqueue fd data → meets data :=
      fun data same => absurd ⟨data, same⟩ queues
    refine iff_of_true (vacuous _) ⟨?_, vacuous _⟩
    rcases client_outputCall server fd call with untouched | queued | ⟨sends, rfl⟩
    · rw [untouched]
      exact within
    · exact absurd queued queues
    · exact heldWithinCap_flushOutput sends steady within

/-- The memory held for a client's output stays within the cap, and the client is not
dropped for output it has received, exactly as long as the sent part of its buffer makes
no difference when something is queued. -/
theorem output_held_within_cap (server : Server σ) (fd : Nat) (calls : List OutputCall)
    (steady : (server.client fd).Steady) (within : (server.client fd).HeldWithinCap) :
    server.OutputHeld fd calls ↔ server.RoomThroughout fd calls := by
  have exact := @Runs.always_iff _ _ outputCall
    (fun state => (state.client fd).HeldWithinCap)
    (fun state call => ∀ data, call = .enqueue fd data → state.RoomForSent fd data) server
    (fun state => (state.client fd).Steady)
    (fun state call => ∀ data, call = .enqueue fd data → ¬ state.RefusedForSent fd data)
    (fun _ call steady => steady_outputCall steady call)
    (fun _ call steady within => roomForSent_call steady within call)
    steady within calls
  exact exact.symm

/-! ## A client that reads steadily -/

/-- A client of a server without a password, with 64 MB for all buffers. -/
def reading : Server Unit :=
  Server.accept { config := { maxClientBuffers := 64 * 1024 * 1024 }, db := () } 7

/-- The client is the only one; its output has a size, and a part of it has been sent. -/
structure Lone (held gone : Nat) (server : Server Unit) : Prop where
  config : server.config = reading.config
  steady : (server.client 7).Steady
  isOpen : (server.client 7).closed = false
  cap : (server.client 7).outputCap = maxReply
  size : (server.client 7).outBuf.length = held
  sent : (server.client 7).outOff = gone
  total : server.clientBuffers = held

theorem lone_reading : Lone 0 0 reading := by
  refine ⟨rfl, ⟨⟨?_, ?_⟩, ?_⟩, ?_, ?_, ?_, ?_, ?_⟩
  all_goals rfl

theorem Lone.enqueue {server : Server Unit} {held gone : Nat} (lone : Lone held gone server)
    {data : Bytes} {count after : Nat} (length : data.length = count)
    (room : held - gone + count ≤ maxReply) (budget : held + count ≤ 64 * 1024 * 1024)
    (sum : held + count = after) : Lone after gone (server.outputCall (.enqueue 7 data)) := by
  subst length sum
  rcases lone with ⟨config, steady, isOpen, cap, size, sent, total⟩
  have limit : server.config.maxClientBuffers = 64 * 1024 * 1024 := by
    rw [config]
    rfl
  have accepted : (server.enqueueOutput 7 data).2 = true := by
    rw [enqueueOutput_accepts, isOpen, cap, total, Client.pendingOut, size, sent, limit]
    exact ⟨rfl, room, by omega⟩
  have appended := server.client_enqueueOutput 7 data
  rw [accepted, if_pos rfl] at appended
  change (server.outputCall (.enqueue 7 data)).client 7 = _ at appended
  refine ⟨?_, steady_outputCall steady _, ?_, ?_, ?_, ?_, ?_⟩
  · rcases emits_enqueueOutput server 7 data with ⟨_, emits, _⟩ | ⟨_, emits, _⟩
    · exact emits.config.trans config
    · exact emits.config.trans config
  · rw [appended]
    exact isOpen
  · rw [appended]
    exact cap
  · rw [appended, ← size]
    exact List.length_append
  · rw [appended]
    exact sent
  · change (server.enqueueOutput 7 data).1.clientBuffers = _
    rw [clientBuffers_enqueueOutput steady.held accepted, total]
    rfl

/-- The client of which a part of the output has been sent. -/
def partlySent (client : Client) (count : Nat) : Client :=
  { client with
    outOff := client.outOff + count
    sent := client.sent ++ (client.outBuf.drop client.outOff).take count }

theorem flushLoop_part (client : Client) {count : Nat} (some : 0 < count)
    (part : client.outOff + count < client.outBuf.length) :
    client.flushLoop [.sent count, .again] = (partlySent client count, .pending, []) := by
  have taken : ((client.outBuf.drop client.outOff).take count).length = count := by
    rw [List.length_take, List.length_drop]
    omega
  have left : client.outOff < client.outBuf.length := by omega
  have nonempty : (client.outBuf.drop client.outOff).take count ≠ [] := by
    intro empty
    rw [empty] at taken
    exact absurd taken (Nat.ne_of_lt some)
  simp only [Client.flushLoop, taken, if_pos left, if_neg nonempty, if_pos part]
  rfl

/-- The kernel takes a part of what is left. -/
theorem Lone.flush {server : Server Unit} {held gone : Nat} (lone : Lone held gone server)
    {count after : Nat} (some : 0 < count) (part : gone + count < held)
    (sum : gone + count = after) :
    Lone held after (server.outputCall (.flush 7 [.sent count, .again])) := by
  subst sum
  have steady := steady_outputCall lone.steady (.flush 7 [.sent count, .again])
  have looped : (Server.client { server with sends := [.sent count, .again] } 7).flushLoop
      [.sent count, .again] = _ :=
    flushLoop_part (server.client 7) some (by rw [lone.size, lone.sent]; exact part)
  have after : server.outputCall (.flush 7 [.sent count, .again]) =
      ({ server with sends := [] } : Server Unit).putClient 7
        (partlySent (server.client 7) count) := by
    unfold outputCall flushOutput
    dsimp only
    rw [looped]
  have here := congrArg (fun state => state.client 7) after
  rw [client_putClient_self] at here
  rw [after] at steady ⊢
  rw [after] at here
  refine ⟨lone.config, steady, ?_, ?_, ?_, ?_, lone.total⟩
  all_goals rw [here]
  · exact lone.isOpen
  · exact lone.cap
  · exact lone.size
  · exact congrArg (fun sent => sent + count) lone.sent

/-- It is answered, reads all but the last byte, is answered again, and so on. -/
def readBut (first second : Bytes) : List OutputCall :=
  [.enqueue 7 first, .flush 7 [.sent (maxReply - 1), .again],
    .enqueue 7 second, .flush 7 [.sent (maxReply - 1), .again]]

theorem lone_readBut {first second : Bytes} (whole : first.length = maxReply)
    (rest : second.length = maxReply - 1) :
    Lone (maxReply + (maxReply - 1)) (maxReply - 1 + (maxReply - 1))
      (reading.outputCalls (readBut first second)) := by
  have answered := lone_reading.enqueue whole (by decide) (by decide) (Nat.zero_add maxReply)
  have read := answered.flush (by decide : 0 < maxReply - 1) (by decide)
    (Nat.zero_add (maxReply - 1))
  have again := read.enqueue rest (by decide) (by decide) rfl
  exact again.flush (by decide : 0 < maxReply - 1) (by decide) rfl

/-- All but one byte has been received, and yet almost twice the cap is held, so that two
more bytes have no room. -/
theorem Lone.stuck {server : Server Unit}
    (lone : Lone (maxReply + (maxReply - 1)) (maxReply - 1 + (maxReply - 1)) server) :
    ¬ (server.client 7).HeldWithinCap ∧ (server.client 7).pendingOut = 1 ∧
      server.RefusedForSent 7 [0, 0] := by
  rcases lone with ⟨config, steady, isOpen, cap, size, sent, total⟩
  have limit : server.config.maxClientBuffers = 2 * maxReply :=
    (congrArg NetConfig.maxClientBuffers config).trans (by decide +kernel)
  have some : 2 < maxReply := by decide
  have two : List.length [(0 : UInt8), 0] = 2 := rfl
  have pending : (server.client 7).pendingOut = 1 := by
    unfold Client.pendingOut
    omega
  refine ⟨?_, pending, ?_, ?_⟩
  · unfold Client.HeldWithinCap
    omega
  · refine Bool.eq_false_of_not_eq_true fun accepted => ?_
    have budget := ((enqueueOutput_accepts _ _ _).mp accepted).2.2
    rw [total, limit, two] at budget
    omega
  · refine (compacted_accepts steady _).mpr ⟨isOpen, ?_, ?_⟩
    · omega
    · omega

def rounds : List OutputCall :=
  readBut (List.replicate maxReply 0) (List.replicate (maxReply - 1) 0)

/-- The memory held outgrows the cap although the client keeps reading, and the client is
dropped for what it has received. -/
theorem sent_output_held :
    (reading.client 7).session.authenticated = true ∧
      ¬ ((reading.outputCalls rounds).client 7).HeldWithinCap ∧
        ((reading.outputCalls rounds).client 7).pendingOut = 1 ∧
          (reading.outputCalls rounds).RefusedForSent 7 [0, 0] ∧
            ¬ reading.OutputHeld 7 rounds := by
  have lone : Lone _ _ (reading.outputCalls rounds) :=
    lone_readBut List.length_replicate List.length_replicate
  rcases lone.stuck with ⟨outgrown, pending, refused⟩
  exact ⟨rfl, outgrown, pending, refused, fun held => outgrown held.within⟩

/-- Here the sent part is in nobody's way. -/
theorem output_held_within_cap_ping :
    reading.OutputHeld 7 [.enqueue 7 [43, 79, 75], .flush 7 [.sent 1, .again]] := by
  refine (output_held_within_cap reading 7 _ lone_reading.steady (Nat.zero_le _)).mpr ?_
  refine (Runs.always_cons _ _).mpr ⟨?_, (Runs.always_cons _ _).mpr ⟨?_, Runs.always_nil⟩⟩
  · rintro data ⟨⟩ _ _ _
    decide +kernel
  · rintro data ⟨⟩

end Server

end SomniumDB.Net
