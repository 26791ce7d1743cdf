import SomniumDB.Net.Turns

/-! # The budget of all client buffers

The total of all buffers is kept by differences, at every place where a buffer changes.
Between two events it is the sum over the open connections, and within the limit. -/

namespace SomniumDB.Net

open Bytes

namespace Server

variable {σ : Type u} {server after : Server σ} {database : Database σ} {fd : Nat}

/-! ## The total -/

/-- Every open client holds the size of its buffers, and the total is the sum of these. -/
structure Counted (server : Server σ) : Prop where
  held : ∀ fd, (server.client fd).held = (server.client fd).buffered
  total : server.clientBuffers = server.clients.total fun _ client => (client.held : Int)

/-- What the client of a descriptor adds to the sum. -/
theorem weight_client (server : Server σ) (fd : Nat) :
    ((server.clients.lookup fd).map fun client => (client.held : Int)).getD 0 =
      (server.client fd).held := by
  unfold Server.client
  cases server.clients.lookup fd with
  | none => rfl
  | some client => rfl

theorem total_putClient (server : Server σ) (fd : Nat) (client : Client) :
    ((server.putClient fd client).clients.total fun _ client => (client.held : Int)) =
      (server.clients.total fun _ client => (client.held : Int)) - (server.client fd).held +
        client.held := by
  unfold putClient
  rw [FiniteMap.total_insert, weight_client]

/-- A change that leaves the buffers of the client as they are. -/
theorem Counted.putClient (counted : server.Counted) {client : Client}
    (held : client.held = (server.client fd).held)
    (buffered : client.buffered = (server.client fd).buffered) :
    (server.putClient fd client).Counted := by
  refine ⟨?_, ?_⟩
  · intro other
    rw [client_putClient]
    by_cases same : other = fd
    · rw [if_pos same]
      rw [held, buffered]
      exact counted.held fd
    · rw [if_neg same]
      exact counted.held other
  · rw [total_putClient, held]
    change server.clientBuffers = _
    have := counted.total
    omega

/-- A change of the buffers that is tracked. -/
theorem Counted.track (counted : server.Counted) {client : Client}
    (held : client.held = (server.client fd).held) :
    ((server.putClient fd client).track fd).Counted := by
  refine ⟨?_, ?_⟩
  · intro other
    rw [client_track, client_putClient_self]
    by_cases same : other = fd
    · rw [if_pos same]
      rfl
    · rw [if_neg same]
      rw [client_putClient, if_neg same]
      exact counted.held other
  · change server.clientBuffers - ((server.putClient fd client).client fd).held +
      ((server.putClient fd client).client fd).buffered =
        ((server.putClient fd client).putClient fd _).clients.total _
    rw [total_putClient, total_putClient, client_putClient_self]
    have := counted.total
    dsimp only
    omega

theorem clientBuffers_track (counted : server.Counted) {client : Client}
    (held : client.held = (server.client fd).held) :
    ((server.putClient fd client).track fd).clientBuffers =
      server.clientBuffers - (server.client fd).buffered + client.buffered := by
  change server.clientBuffers - ((server.putClient fd client).client fd).held +
    ((server.putClient fd client).client fd).buffered = _
  rw [client_putClient_self, held, counted.held]

/-- The total between two events. -/
structure Budgeted (server : Server σ) : Prop extends counted : Counted server where
  budget : server.clientBuffers ≤ server.config.maxClientBuffers

/-- A step that keeps the total right and within the limit. -/
structure Keeps (server after : Server σ) : Prop where
  config : after.config = server.config
  budgeted : server.Budgeted → after.Budgeted

theorem Keeps.refl : Keeps server server := ⟨rfl, id⟩

theorem Keeps.trans {third : Server σ} (left : Keeps server after) (right : Keeps after third) :
    Keeps server third :=
  ⟨right.config.trans left.config, right.budgeted ∘ left.budgeted⟩

theorem keeps_putClient (client : Client) (held : client.held = (server.client fd).held)
    (buffered : client.buffered = (server.client fd).buffered) :
    Keeps server (server.putClient fd client) :=
  ⟨rfl, fun budgeted => ⟨budgeted.counted.putClient held buffered, budgeted.budget⟩⟩

theorem keeps_track (client : Client) (held : client.held = (server.client fd).held)
    (fits : server.clientBuffers - (server.client fd).buffered + client.buffered ≤
      server.config.maxClientBuffers ∨ client.buffered ≤ (server.client fd).buffered) :
    Keeps server ((server.putClient fd client).track fd) := by
  refine ⟨rfl, fun budgeted => ⟨budgeted.counted.track held, ?_⟩⟩
  rw [clientBuffers_track budgeted.counted held]
  change _ ≤ (server.config.maxClientBuffers : Int)
  have := budgeted.budget
  omega

/-! ## The functions of a connection -/

theorem keeps_sends (server : Server σ) (sends : List Send) : Keeps server { server with sends } :=
  ⟨rfl, fun budgeted => ⟨⟨budgeted.held, budgeted.total⟩, budgeted.budget⟩⟩

theorem keeps_db (server : Server σ) (db : σ) : Keeps server { server with db } :=
  ⟨rfl, fun budgeted => ⟨⟨budgeted.held, budgeted.total⟩, budgeted.budget⟩⟩

theorem keeps_trouble (server : Server σ) : Keeps server server.trouble :=
  ⟨rfl, fun budgeted => ⟨⟨budgeted.held, budgeted.total⟩, budgeted.budget⟩⟩

theorem keeps_flushOutput (server : Server σ) (fd : Nat) :
    Keeps server (server.flushOutput fd).1 := by
  rcases flushLoop_fields (server.client fd) server.sends with ⟨outOff, sent, fields, _⟩
  unfold flushOutput
  cases looped : (server.client fd).flushLoop server.sends with
  | mk client outcome =>
      rcases outcome with ⟨result, sends⟩
      rw [looped] at fields
      obtain rfl : client = { server.client fd with outOff, sent } := fields
      refine (keeps_sends server sends).trans ?_
      cases result with
      | complete =>
          refine keeps_track _ rfl (.inr ?_)
          unfold Client.buffered
          change (if (server.client fd).closed = true then 0 else _) ≤
            (if (server.client fd).closed = true then 0 else _)
          by_cases gone : (server.client fd).closed = true
          · simp only [if_pos gone]
            exact le_rfl
          · simp only [if_neg gone]
            exact Nat.add_le_add_left (Nat.zero_le _) _
      | pending => exact keeps_putClient _ rfl rfl
      | dead =>
          refine Keeps.trans ?_ (keeps_trouble _)
          exact keeps_putClient _ rfl rfl

theorem overBufferBudget_eq_false {extra : Nat} (fits : server.overBufferBudget extra = false) :
    server.clientBuffers + extra ≤ server.config.maxClientBuffers := by
  unfold overBufferBudget at fits
  rw [Bool.not_eq_false', decide_eq_true_eq] at fits
  exact fits

theorem keeps_enqueueOutput (server : Server σ) (fd : Nat) (data : Bytes) :
    Keeps server (server.enqueueOutput fd data).1 := by
  unfold enqueueOutput
  dsimp only
  by_cases closed : (server.client fd).closed = true
  · rw [if_pos closed]
    exact .refl
  · rw [if_neg closed]
    by_cases beyond : (server.client fd).outputCap < (server.client fd).pendingOut + data.length
    · rw [if_pos beyond]
      exact keeps_trouble server
    · rw [if_neg beyond]
      by_cases exceeds : server.overBufferBudget (data.length) = true
      · rw [if_pos exceeds]
        exact keeps_trouble server
      · rw [if_neg exceeds]
        refine keeps_track _ rfl (.inl ?_)
        unfold Client.buffered
        dsimp only
        rw [if_neg closed, if_neg closed, List.length_append]
        have room := overBufferBudget_eq_false (Bool.eq_false_of_not_eq_true exceeds)
        omega

theorem keeps_scheduleClose (database : Database σ) (server : Server σ) (fd : Nat) :
    Keeps server (scheduleClose database server fd) := by
  unfold scheduleClose
  dsimp only
  by_cases gone : (server.client fd).closed = true
  · rw [if_pos gone]
    exact .refl
  · rw [if_neg gone]
    have closed : Keeps server
        ((server.putClient fd { server.client fd with closed := true }).track fd) :=
      keeps_track _ rfl (.inr (Nat.zero_le _))
    exact closed.trans (keeps_db _ _)

theorem keeps_deliverPubsub (database : Database σ) (server : Server σ) (message : Nat × Bytes) :
    Keeps server (deliverPubsub database server message) := by
  unfold deliverPubsub
  dsimp only
  by_cases closed : (server.client message.1).closed = true
  · rw [if_pos closed]
    exact .refl
  · rw [if_neg closed]
    generalize (if (server.client message.1).session.resp3 = true then asPush message.2
      else message.2) = text
    have queue := keeps_enqueueOutput server message.1 text
    rcases enqueued : server.enqueueOutput message.1 text with ⟨queued, accepted⟩
    rw [enqueued] at queue
    cases accepted with
    | false => exact queue.trans (keeps_scheduleClose database queued message.1)
    | true =>
        have flush := keeps_flushOutput queued message.1
        dsimp only
        rcases flushing : queued.flushOutput message.1 with ⟨flushed, result⟩
        rw [flushing] at flush
        cases result with
        | dead => exact (queue.trans flush).trans (keeps_scheduleClose database flushed message.1)
        | complete => exact queue.trans flush
        | pending => exact queue.trans flush

theorem keeps_deliveries (database : Database σ) (server : Server σ)
    (messages : List (Nat × Bytes)) :
    Keeps server (messages.foldl (deliverPubsub database) server) := by
  induction messages generalizing server with
  | nil => exact .refl
  | cons message rest induction =>
      exact (keeps_deliverPubsub database server message).trans (induction _)

theorem keeps_command (database : Database σ) (server : Server σ) (fd : Nat) (args : List Bytes) :
    Keeps server (command database server fd args).1 := by
  unfold command
  dsimp only
  refine Keeps.trans ?_ (keeps_deliveries database _ _)
  refine (keeps_db server
    (answer server.config database fd (server.client fd).session server.db args).2.1).trans ?_
  exact keeps_putClient _ rfl rfl

theorem keeps_eraseInput (server : Server σ) (fd pos : Nat) :
    Keeps server (server.eraseInput fd pos) := by
  refine keeps_track _ rfl (.inr ?_)
  unfold Client.buffered
  change (if (server.client fd).closed = true then 0 else _) ≤
    (if (server.client fd).closed = true then 0 else _)
  by_cases gone : (server.client fd).closed = true
  · simp only [if_pos gone]
    exact le_rfl
  · simp only [if_neg gone]
    apply Nat.add_le_add_right
    rw [List.length_drop]
    exact Nat.sub_le _ _

theorem keeps_frames (fd : Nat) : Hosts.Frames fd (@Keeps σ) where
  refl _ := .refl
  trans := .trans
  enqueue server data := keeps_enqueueOutput server fd data
  flush server := keeps_flushOutput server fd
  erase server pos := keeps_eraseInput server fd pos
  answered _ := keeps_putClient _ rfl rfl

theorem keeps_serve (database : Database σ) (server : Server σ) (fd : Nat) :
    Keeps server (serve database server fd).1 :=
  frames_serve (keeps_frames fd) (fun server args => keeps_command database server fd args)
    (fun server => keeps_scheduleClose database server fd) server

/-! ## Reading -/

/-- While a client is read from the total may go over the limit, but the others are within
it. -/
structure Draining (fd : Nat) (server after : Server σ) : Prop where
  config : after.config = server.config
  counted : after.Counted
  others : after.clientBuffers - (after.client fd).buffered ≤ after.config.maxClientBuffers

theorem Draining.trouble (draining : Draining fd server after) :
    Draining fd server after.trouble :=
  ⟨draining.config, ⟨draining.counted.held, draining.counted.total⟩, draining.others⟩

theorem Draining.hangUp (draining : Draining fd server after) :
    Draining fd server (after.hangUp fd) := by
  refine ⟨draining.config, draining.counted.putClient rfl rfl, ?_⟩
  have same : ((after.hangUp fd).client fd).buffered = (after.client fd).buffered := by
    unfold Server.hangUp
    rw [client_putClient_self]
    rfl
  rw [same]
  exact draining.others

/-- Whatever is read, either the total is within the limit or the client is to be closed. -/
theorem draining_drainRead (server : Server σ) (fd : Nat) (reads : List ReadCall)
    (budgeted : server.Budgeted) :
    Draining fd server (server.drainRead fd reads).1 ∧
      ((server.drainRead fd reads).2 = true → (server.drainRead fd reads).1.Budgeted) := by
  induction reads generalizing server with
  | nil =>
      refine ⟨⟨rfl, budgeted.counted, ?_⟩, fun _ => budgeted⟩
      have := budgeted.budget
      change server.clientBuffers - _ ≤ (server.config.maxClientBuffers : Int)
      omega
  | cons call rest induction =>
      have nothing : Draining fd server server := by
        refine ⟨rfl, budgeted.counted, ?_⟩
        have := budgeted.budget
        omega
      unfold drainRead
      dsimp only
      by_cases full : (server.client fd).inputCap ≤ List.length (server.client fd).inBuf
      · rw [if_pos full]
        exact ⟨nothing, fun _ => budgeted⟩
      · rw [if_neg full]
        cases call with
        | interrupted => exact induction server budgeted
        | again => exact ⟨nothing, fun _ => budgeted⟩
        | failed => exact ⟨nothing.hangUp, fun refused => by cases refused⟩
        | got bytes =>
            dsimp only
            by_cases empty : List.take readChunk bytes = []
            · rw [if_pos empty]
              exact ⟨nothing.hangUp, fun refused => by cases refused⟩
            · rw [if_neg empty]
              generalize grownEq : ({ server.client fd with
                  inBuf := (server.client fd).inBuf ++ bytes.take readChunk
                  received := (server.client fd).received ++ bytes.take readChunk } : Client) =
                grown
              have held : grown.held = (server.client fd).held := by
                rw [← grownEq]
              generalize readEq : (server.putClient fd grown).track fd = read
              have draining : Draining fd server read := by
                rw [← readEq]
                refine ⟨rfl, budgeted.counted.track held, ?_⟩
                rw [clientBuffers_track budgeted.counted held, client_track, if_pos rfl,
                  client_putClient_self]
                have := nothing.others
                change _ - (grown.buffered : Int) ≤ (server.config.maxClientBuffers : Int)
                omega
              cases fits : read.overBufferBudget 0 with
              | true => exact ⟨draining.trouble, fun refused => by cases refused⟩
              | false =>
                  have within : read.Budgeted := by
                    refine ⟨draining.counted, ?_⟩
                    simpa using overBufferBudget_eq_false fits
                  rw [if_neg (by decide)]
                  by_cases short : (List.take readChunk bytes).length < readChunk
                  · rw [if_pos short]
                    exact ⟨draining, fun _ => within⟩
                  · rw [if_neg short]
                    rcases induction read within with ⟨later, last⟩
                    exact ⟨⟨later.config.trans draining.config, later.counted, later.others⟩,
                      last⟩

theorem config_drainRead (server : Server σ) (fd : Nat) (reads : List ReadCall) :
    (server.drainRead fd reads).1.config = server.config :=
  @frames_drainRead σ fd (fun server after => after.config = server.config) (fun _ => rfl)
    (fun left right => right.trans left) (fun _ => rfl) (fun _ => rfl) (fun _ _ => rfl) server reads

/-! ## Every sequence of events -/

/-- Closing the client that was read from gives back what it held. -/
theorem Draining.closed (draining : Draining fd server after) :
    (scheduleClose database after fd).Budgeted := by
  have others := draining.others
  unfold scheduleClose
  dsimp only
  by_cases closed : (after.client fd).closed = true
  · rw [if_pos closed]
    have nothing : (after.client fd).buffered = 0 := if_pos closed
    refine ⟨draining.counted, ?_⟩
    omega
  · rw [if_neg closed]
    have counted : ((after.putClient fd { after.client fd with closed := true }).track
        fd).Counted := draining.counted.track rfl
    have total : ((after.putClient fd { after.client fd with closed := true }).track
        fd).clientBuffers = after.clientBuffers - (after.client fd).buffered + (0 : Nat) :=
      clientBuffers_track draining.counted rfl
    refine ⟨⟨counted.held, counted.total⟩, ?_⟩
    change ((after.putClient fd { after.client fd with closed := true }).track
      fd).clientBuffers ≤ (after.config.maxClientBuffers : Int)
    omega

theorem keeps_clientEvent (database : Database σ) (server : Server σ) (fd : Nat)
    (event : ClientEvent) : Keeps server (server.clientEvent database fd event) := by
  cases event with
  | readable reads sends =>
      refine (keeps_sends server sends).trans ?_
      have config := config_drainRead { server with sends } fd reads
      have drained := draining_drainRead { server with sends } fd reads
      unfold clientEvent
      dsimp only
      rcases draining : ({ server with sends } : Server σ).drainRead fd reads with ⟨read, success⟩
      rw [draining] at config drained
      cases success with
      | false =>
          refine ⟨?_, fun budgeted => (drained budgeted).1.closed⟩
          exact (keeps_scheduleClose database read fd).config.trans config
      | true =>
          have kept : Keeps { server with sends } read :=
            ⟨config, fun budgeted => (drained budgeted).2 rfl⟩
          have served := kept.trans (keeps_serve database read fd)
          dsimp only
          rcases serving : serve database read fd with ⟨after, more⟩
          rw [serving] at served
          cases more with
          | true => exact served
          | false =>
              dsimp only
              by_cases full : (after.client fd).inputCap ≤ List.length (after.client fd).inBuf
              · rw [if_pos full]
                exact (served.trans (keeps_trouble after)).trans
                  (keeps_scheduleClose database _ fd)
              · rw [if_neg full]
                exact served
  | writable sends =>
      refine (keeps_sends server sends).trans ?_
      have flush := keeps_flushOutput { server with sends } fd
      unfold clientEvent
      dsimp only
      rcases flushing : ({ server with sends } : Server σ).flushOutput fd with ⟨flushed, result⟩
      rw [flushing] at flush
      cases result with
      | dead => exact flush.trans (keeps_scheduleClose database flushed fd)
      | complete => exact flush
      | pending => exact flush
  | pump sends =>
      unfold clientEvent
      dsimp only
      by_cases empty : (server.client fd).inBuf = []
      · rw [if_pos empty]
        exact .refl
      · rw [if_neg empty]
        exact (keeps_sends server sends).trans (keeps_serve database _ fd)
  | timeout =>
      unfold clientEvent
      dsimp only
      by_cases authenticated : (server.client fd).session.authenticated = true
      · rw [if_pos authenticated]
        exact .refl
      · rw [if_neg authenticated]
        exact (keeps_trouble server).trans (keeps_scheduleClose database _ fd)

/-- A new client holds nothing; the descriptor was not in use. -/
theorem keeps_accept (server : Server σ) (fd : Nat) : Keeps server (server.accept fd) := by
  unfold accept
  by_cases alive : (!(server.client fd).closed) = true
  · rw [if_pos alive]
    exact .refl
  · rw [if_neg alive]
    by_cases full : server.config.maxClients ≤ server.openClients
    · rw [if_pos full]
      exact keeps_trouble server
    · rw [if_neg full]
      have closed : (server.client fd).closed = true := by simpa using alive
      have nothing : (server.client fd).buffered = 0 := if_pos closed
      refine ⟨rfl, fun budgeted => ⟨budgeted.counted.putClient ?_ nothing.symm, budgeted.budget⟩⟩
      rw [budgeted.held fd, nothing]
      rfl

theorem keeps_step (database : Database σ) (server : Server σ) (event : NetEvent) :
    Keeps server (step database server event) := by
  cases event with
  | accept fd => exact keeps_accept server fd
  | client fd event =>
      unfold step
      dsimp only
      by_cases closed : (server.client fd).closed = true
      · rw [if_pos closed]
        exact .refl
      · rw [if_neg closed]
        exact keeps_clientEvent database server fd event

theorem keeps_run (database : Database σ) (server : Server σ) (events : List NetEvent) :
    Keeps server (run database server events) := by
  induction events generalizing server with
  | nil => exact .refl
  | cons event rest induction => exact (keeps_step database server event).trans (induction _)

/-- The sum over the open clients of the sizes of their buffers. -/
def openBuffers (server : Server σ) : Nat :=
  ((server.clients.toPairs.filter fun entry => !entry.2.closed).map fun entry =>
    entry.2.inBuf.length + entry.2.outBuf.length).sum

theorem sum_buffered (entries : List (Nat × Client)) :
    (entries.map fun entry => (entry.2.buffered : Int)).sum =
      (((entries.filter fun entry => !entry.2.closed).map fun entry =>
        entry.2.inBuf.length + entry.2.outBuf.length).sum : Nat) := by
  induction entries with
  | nil => rfl
  | cons entry rest induction =>
      rw [List.map_cons, List.sum_cons, induction]
      unfold Client.buffered
      cases closed : entry.2.closed with
      | true => simp [closed]
      | false => simp [closed]

theorem Counted.openBuffers (counted : server.Counted) :
    server.clientBuffers = server.openBuffers := by
  have listed : (server.clients.total fun _ client => (client.held : Int)) =
      server.clients.total fun _ client => (client.buffered : Int) := by
    apply FiniteMap.total_congr
    intro fd client registered
    have found : server.client fd = client := by
      rw [Server.client, registered]
      rfl
    have held := counted.held fd
    rw [found] at held
    rw [held]
  rw [counted.total, listed]
  exact sum_buffered _

/-- Whatever happens on whatever connections, between two events the total of the buffers
is the sum over the open ones and within the limit. -/
theorem client_buffers_exact (config : NetConfig) (database : Database σ) (db : σ)
    (events : List NetEvent) :
    let server := run database { config, db } events
    server.clientBuffers = server.openBuffers ∧ 0 ≤ server.clientBuffers ∧
      server.clientBuffers ≤ config.maxClientBuffers := by
  intro server
  have kept := keeps_run database { config, db } events
  have start : ({ config, db } : Server σ).Budgeted :=
    ⟨⟨fun _ => rfl, rfl⟩, Int.natCast_nonneg _⟩
  have budgeted : server.Budgeted := kept.budgeted start
  have sum := budgeted.counted.openBuffers
  refine ⟨sum, ?_, ?_⟩
  · rw [sum]
    exact Int.natCast_nonneg _
  · have limit := budgeted.budget
    rw [show server.config = config from kept.config] at limit
    exact limit

end Server

end SomniumDB.Net
