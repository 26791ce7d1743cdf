import SomniumDB.Core.Service
import SomniumDB.Library.SetMap

/-! # Subscriptions

The two maps of Pub/Sub are one relation between clients and channels, seen from both
sides: whatever clients do, and whichever of them are lost while a message is delivered. -/

namespace SomniumDB

open Bytes

/-- What changes the subscriptions. A delivery may close clients, `closing` for each
recipient. -/
inductive PubSubEvent
  | subscribe (clientFd : Nat) (channels : List Bytes) (resp3 : Bool)
  | unsubscribe (clientFd : Nat) (channels : List Bytes) (resp3 : Bool)
  | publish (channel message : Bytes) (closing : Nat → List Nat)
  | disconnect (clientFd : Nat)

namespace PubSub

/-- The sink is called for each of the recipients; what it is called with, in order. -/
def deliver (closing : Nat → List Nat) :
    PubSub → List (Nat × Bytes) → PubSub × List (Nat × Bytes)
  | pubsub, [] => (pubsub, [])
  | pubsub, message :: rest =>
      let (delivered, attempts) :=
        deliver closing ((closing message.1).foldl removeClient pubsub) rest
      (delivered, message :: attempts)

def step (pubsub : PubSub) : PubSubEvent → PubSub
  | .subscribe clientFd channels resp3 =>
      (Service.handleSubscribe pubsub clientFd (ascii "SUBSCRIBE" :: channels) resp3).1
  | .unsubscribe clientFd channels resp3 => (pubsub.unsubscribe clientFd channels resp3).1
  | .publish channel message closing =>
      (pubsub.deliver closing (pubsub.publish channel message).1).1
  | .disconnect clientFd => pubsub.removeClient clientFd

def run (pubsub : PubSub) (events : List PubSubEvent) : PubSub :=
  events.foldl step pubsub

/-! ## The invariant -/

structure Mirrored (pubsub : PubSub) : Prop where
  subscribers : SetMap.Proper pubsub.channelSubscribers
  subscriptions : SetMap.Proper pubsub.clientSubscriptions
  mirror : ∀ clientFd channel,
    clientFd ∈ pubsub.subscribersOf channel ↔ channel ∈ pubsub.subscriptionsOf clientFd

/-- While a client leaves its channels its own set may be empty. -/
structure Parting (clientFd : Nat) (pubsub : PubSub) : Prop where
  subscribers : SetMap.Proper pubsub.channelSubscribers
  distinct : SetMap.Distinct pubsub.clientSubscriptions
  nonempty : ∀ other set, other ≠ clientFd →
    pubsub.clientSubscriptions.lookup other = some set → set ≠ []
  mirror : ∀ other channel,
    other ∈ pubsub.subscribersOf channel ↔ channel ∈ pubsub.subscriptionsOf other

theorem Mirrored.parting {pubsub : PubSub} (mirrored : pubsub.Mirrored) (clientFd : Nat) :
    Parting clientFd pubsub where
  subscribers := mirrored.subscribers
  distinct := mirrored.subscriptions.distinct
  nonempty := fun other set _ => mirrored.subscriptions.nonempty other set
  mirror := mirrored.mirror

theorem Parting.nodup_subscribers {pubsub : PubSub} (parting : Parting clientFd pubsub)
    (channel : Bytes) : (pubsub.subscribersOf channel).Nodup :=
  parting.subscribers.distinct.members channel

theorem Parting.nodup_subscriptions {pubsub : PubSub} (parting : Parting clientFd pubsub)
    (other : Nat) : (pubsub.subscriptionsOf other).Nodup :=
  parting.distinct.members other

theorem mirrored_empty : Mirrored {} where
  subscribers := SetMap.proper_empty
  subscriptions := SetMap.proper_empty
  mirror := by
    intro clientFd channel
    constructor <;> intro member <;> cases member

theorem Mirrored.isSubscribed_iff {pubsub : PubSub} (mirrored : pubsub.Mirrored)
    (clientFd : Nat) :
    pubsub.isSubscribed clientFd = true ↔ pubsub.subscriptionsOf clientFd ≠ [] := by
  unfold isSubscribed
  rw [decide_eq_true_iff]
  exact mirrored.subscriptions.mem_iff clientFd

/-! ## Subscribing -/

section Subscribe

variable (pubsub : PubSub) (clientFd : Nat) (resp3 : Bool)

theorem subscribe_subscribers (channel : Bytes) :
    (pubsub.subscribe clientFd channel resp3).1.channelSubscribers =
      SetMap.add pubsub.channelSubscribers channel clientFd := rfl

theorem subscribe_subscriptions (channel : Bytes) :
    (pubsub.subscribe clientFd channel resp3).1.clientSubscriptions =
      SetMap.add pubsub.clientSubscriptions clientFd channel := rfl

/-- The number in a confirmation is that of the subscriptions it leaves. -/
theorem subscribe_reply (channel : Bytes) :
    (pubsub.subscribe clientFd channel resp3).2 =
      confirmation resp3 (ascii "subscribe") ++ Resp.bulk channel ++
        integer ((pubsub.subscribe clientFd channel resp3).1.subscriptionsOf clientFd).length := by
  have left : (pubsub.subscribe clientFd channel resp3).1.subscriptionsOf clientFd =
      (pubsub.subscriptionsOf clientFd).insert channel := by
    unfold subscriptionsOf
    rw [subscribe_subscriptions]
    exact (SetMap.members_add _ clientFd clientFd channel).trans (if_pos rfl)
  rw [left]
  rfl

theorem Mirrored.subscribe {pubsub : PubSub} (mirrored : pubsub.Mirrored) (channel : Bytes) :
    (pubsub.subscribe clientFd channel resp3).1.Mirrored where
  subscribers := mirrored.subscribers.add channel clientFd
  subscriptions := mirrored.subscriptions.add clientFd channel
  mirror := by
    intro other among
    have before := mirrored.mirror other among
    have joins := SetMap.mem_members_add pubsub.channelSubscribers channel among clientFd other
    have gains := SetMap.mem_members_add pubsub.clientSubscriptions clientFd other channel among
    unfold subscribersOf subscriptionsOf at before ⊢
    rw [subscribe_subscribers, subscribe_subscriptions]
    refine joins.trans (Iff.trans ?_ gains.symm)
    exact or_congr and_comm before

theorem Mirrored.subscribeLoop {pubsub : PubSub} (mirrored : pubsub.Mirrored)
    (replies : Bytes) (channels : List Bytes) :
    (Service.subscribeLoop pubsub clientFd resp3 replies channels).1.Mirrored := by
  induction channels generalizing pubsub replies with
  | nil => exact mirrored
  | cons channel rest induction =>
      exact induction (mirrored.subscribe clientFd resp3 channel) _

theorem subscribeLoop_append (replies : Bytes) (channels more : List Bytes) :
    Service.subscribeLoop pubsub clientFd resp3 replies (channels ++ more) =
      Service.subscribeLoop (Service.subscribeLoop pubsub clientFd resp3 replies channels).1
        clientFd resp3 (Service.subscribeLoop pubsub clientFd resp3 replies channels).2 more := by
  induction channels generalizing pubsub replies with
  | nil => rfl
  | cons channel rest induction => exact induction _ _

end Subscribe

/-! ## Leaving channels -/

theorem leave_eq_remove (subscribers : FiniteMap Bytes (List Nat)) (clientFd : Nat)
    (channel : Bytes) :
    leave subscribers clientFd channel = SetMap.remove subscribers channel clientFd := by
  unfold leave SetMap.remove
  cases subscribers.lookup channel with
  | none => rfl
  | some members =>
      by_cases last : members.erase clientFd = []
      · simp only [last, if_true]
      · simp only [last, if_false]

/-- One turn of the loop of `unsubscribe`. -/
def part (pubsub : PubSub) (clientFd : Nat) (channel : Bytes) : PubSub :=
  { channelSubscribers := leave pubsub.channelSubscribers clientFd channel
    clientSubscriptions :=
      if (pubsub.clientSubscriptions.lookup clientFd).isSome then
        pubsub.clientSubscriptions.insert clientFd
          ((pubsub.subscriptionsOf clientFd).erase channel)
      else pubsub.clientSubscriptions }

section Part

variable (pubsub : PubSub) (clientFd : Nat) (resp3 : Bool)

theorem subscribersOf_part (channel among : Bytes) :
    (pubsub.part clientFd channel).subscribersOf among =
      if among = channel then (pubsub.subscribersOf channel).erase clientFd
      else pubsub.subscribersOf among := by
  unfold subscribersOf part
  rw [leave_eq_remove]
  exact SetMap.members_remove pubsub.channelSubscribers channel among clientFd

theorem subscriptionsOf_part (channel : Bytes) (other : Nat) :
    (pubsub.part clientFd channel).subscriptionsOf other =
      if other = clientFd then (pubsub.subscriptionsOf clientFd).erase channel
      else pubsub.subscriptionsOf other := by
  unfold subscriptionsOf part
  by_cases known : (pubsub.clientSubscriptions.lookup clientFd).isSome
  · rw [if_pos known]
    exact SetMap.members_insert pubsub.clientSubscriptions clientFd other _
  · rw [if_neg known]
    by_cases own : other = clientFd
    · subst own
      rw [if_pos rfl, Option.not_isSome_iff_eq_none.mp known]
      rfl
    · rw [if_neg own]

theorem Parting.part {pubsub : PubSub} (parting : Parting clientFd pubsub) (channel : Bytes) :
    Parting clientFd (pubsub.part clientFd channel) where
  subscribers := by
    unfold PubSub.part
    rw [leave_eq_remove]
    exact parting.subscribers.remove channel clientFd
  distinct := by
    unfold PubSub.part
    dsimp only
    by_cases present : (pubsub.clientSubscriptions.lookup clientFd).isSome = true
    · rw [if_pos present]
      exact parting.distinct.insert clientFd ((parting.distinct.members clientFd).erase channel)
    · rw [if_neg present]
      exact parting.distinct
  nonempty := by
    intro other set foreign stored
    refine parting.nonempty other set foreign ?_
    unfold PubSub.part at stored
    dsimp only at stored
    by_cases present : (pubsub.clientSubscriptions.lookup clientFd).isSome = true
    · rw [if_pos present] at stored
      rwa [FiniteMap.lookup_insert_if, if_neg foreign] at stored
    · rw [if_neg present] at stored
      exact stored
  mirror := by
    intro other among
    have before := parting.mirror other among
    rw [subscribersOf_part, subscriptionsOf_part]
    by_cases here : among = channel
    · subst here
      rw [if_pos rfl, (parting.nodup_subscribers among).mem_erase_iff]
      by_cases own : other = clientFd
      · subst own
        rw [if_pos rfl, (parting.nodup_subscriptions other).mem_erase_iff]
        exact and_congr (iff_of_false (fun differ => differ rfl) (fun differ => differ rfl)) before
      · rw [if_neg own, before]
        exact and_iff_right own
    · rw [if_neg here]
      by_cases own : other = clientFd
      · subst own
        rw [if_pos rfl, (parting.nodup_subscriptions other).mem_erase_iff, before]
        exact (and_iff_right here).symm
      · rw [if_neg own]
        exact before

theorem unsubscribeLoop_cons (replies : Bytes) (channel : Bytes) (rest : List Bytes) :
    pubsub.unsubscribeLoop clientFd resp3 replies (channel :: rest) =
      (pubsub.part clientFd channel).unsubscribeLoop clientFd resp3
        (replies ++ (confirmation resp3 (ascii "unsubscribe") ++ Resp.bulk channel ++
          integer ((pubsub.part clientFd channel).subscriptionsOf clientFd).length)) rest := by
  rw [subscriptionsOf_part, if_pos rfl]
  rfl

theorem unsubscribeLoop_append (replies : Bytes) (channels more : List Bytes) :
    pubsub.unsubscribeLoop clientFd resp3 replies (channels ++ more) =
      (pubsub.unsubscribeLoop clientFd resp3 replies channels).1.unsubscribeLoop clientFd resp3
        (pubsub.unsubscribeLoop clientFd resp3 replies channels).2 more := by
  induction channels generalizing pubsub replies with
  | nil => rfl
  | cons channel rest induction => exact induction _ _

theorem Parting.unsubscribeLoop {pubsub : PubSub} (parting : Parting clientFd pubsub)
    (replies : Bytes) (channels : List Bytes) :
    Parting clientFd (pubsub.unsubscribeLoop clientFd resp3 replies channels).1 := by
  induction channels generalizing pubsub replies with
  | nil => exact parting
  | cons channel rest induction =>
      rw [unsubscribeLoop_cons]
      exact induction (parting.part clientFd channel) _

/-- The end of `unsubscribe`: a client without subscriptions is no longer in the map. -/
def settle (pubsub : PubSub) (clientFd : Nat) : PubSub :=
  if pubsub.clientSubscriptions.lookup clientFd = some [] then
    { pubsub with clientSubscriptions := pubsub.clientSubscriptions.erase clientFd }
  else pubsub

theorem subscriptionsOf_settle (other : Nat) :
    (pubsub.settle clientFd).subscriptionsOf other = pubsub.subscriptionsOf other := by
  unfold settle
  by_cases empty : pubsub.clientSubscriptions.lookup clientFd = some []
  · rw [if_pos empty]
    refine (SetMap.members_erase pubsub.clientSubscriptions clientFd other).trans ?_
    by_cases own : other = clientFd
    · rw [if_pos own]
      subst own
      unfold subscriptionsOf
      rw [empty]
      rfl
    · rw [if_neg own]
      rfl
  · rw [if_neg empty]

theorem Parting.settle {pubsub : PubSub} (parting : Parting clientFd pubsub) :
    (pubsub.settle clientFd).Mirrored := by
  have subscribers : (pubsub.settle clientFd).channelSubscribers = pubsub.channelSubscribers := by
    unfold PubSub.settle
    by_cases last : pubsub.clientSubscriptions.lookup clientFd = some []
    · rw [if_pos last]
    · rw [if_neg last]
  refine ⟨?_, ?_, ?_⟩
  · rw [subscribers]
    exact parting.subscribers
  · unfold PubSub.settle
    by_cases last : pubsub.clientSubscriptions.lookup clientFd = some []
    · rw [if_pos last]
      refine ⟨parting.distinct.erase clientFd, ?_⟩
      intro other set stored
      rw [FiniteMap.lookup_erase_if] at stored
      by_cases same : other = clientFd
      · rw [if_pos same] at stored
        cases stored
      · rw [if_neg same] at stored
        exact parting.nonempty other set same stored
    · rw [if_neg last]
      refine ⟨parting.distinct, ?_⟩
      intro other set stored
      by_cases own : other = clientFd
      · subst own
        rintro rfl
        exact last stored
      · exact parting.nonempty other set own stored
  · intro other channel
    rw [subscriptionsOf_settle, ← parting.mirror]
    unfold subscribersOf
    rw [subscribers]

/-- What `unsubscribe` does with at least one channel. -/
theorem unsubscribe_cons (first : Bytes) (rest : List Bytes) :
    pubsub.unsubscribe clientFd (first :: rest) resp3 =
      ((pubsub.unsubscribeLoop clientFd resp3 [] (first :: rest)).1.settle clientFd,
        (pubsub.unsubscribeLoop clientFd resp3 [] (first :: rest)).2) := rfl

/-- Without channels it is about those of the client. -/
theorem unsubscribe_nil (first : Bytes) (rest : List Bytes)
    (own : pubsub.subscriptionsOf clientFd = first :: rest) :
    pubsub.unsubscribe clientFd [] resp3 = pubsub.unsubscribe clientFd (first :: rest) resp3 := by
  unfold unsubscribe leftBy
  rw [if_pos rfl, own]
  rfl

theorem unsubscribe_none (none : pubsub.subscriptionsOf clientFd = []) :
    pubsub.unsubscribe clientFd [] resp3 =
      (pubsub, confirmation resp3 (ascii "unsubscribe") ++ nil resp3 ++ integer 0) := by
  unfold unsubscribe leftBy
  rw [if_pos rfl, none]
  rfl

theorem Mirrored.unsubscribe {pubsub : PubSub} (mirrored : pubsub.Mirrored)
    (channels : List Bytes) : (pubsub.unsubscribe clientFd channels resp3).1.Mirrored := by
  have given : ∀ first rest, (pubsub.unsubscribe clientFd (first :: rest) resp3).1.Mirrored := by
    intro first rest
    rw [unsubscribe_cons]
    exact ((mirrored.parting clientFd).unsubscribeLoop clientFd resp3 [] _).settle
  cases channels with
  | cons first rest => exact given first rest
  | nil =>
      cases own : pubsub.subscriptionsOf clientFd with
      | nil =>
          rw [unsubscribe_none pubsub clientFd resp3 own]
          exact mirrored
      | cons first rest =>
          rw [unsubscribe_nil pubsub clientFd resp3 first rest own]
          exact given first rest

end Part

/-! ## Clients that go -/

section Gone

variable (pubsub : PubSub) (clientFd : Nat)

theorem mem_members_foldl_leave (channels : List Bytes)
    (subscribers : FiniteMap Bytes (List Nat)) (proper : SetMap.Proper subscribers) :
    SetMap.Proper (channels.foldl
        (fun subscribers channel => leave subscribers clientFd channel) subscribers) ∧
      ∀ among other, other ∈ SetMap.members (channels.foldl
          (fun subscribers channel => leave subscribers clientFd channel) subscribers) among ↔
        other ∈ SetMap.members subscribers among ∧ ¬(among ∈ channels ∧ other = clientFd) := by
  induction channels generalizing subscribers with
  | nil =>
      refine ⟨proper, fun among other => ?_⟩
      simp
  | cons channel rest induction =>
      have left := proper.remove channel clientFd
      rw [← leave_eq_remove] at left
      rcases induction (leave subscribers clientFd channel) left with ⟨kept, members⟩
      refine ⟨kept, fun among other => ?_⟩
      refine (members among other).trans ?_
      rw [leave_eq_remove, proper.distinct.mem_members_remove, List.mem_cons]
      tauto

theorem Mirrored.removeClient {pubsub : PubSub} (mirrored : pubsub.Mirrored) :
    (pubsub.removeClient clientFd).Mirrored := by
  rcases mem_members_foldl_leave clientFd
    (pubsub.subscriptionsOf clientFd) pubsub.channelSubscribers mirrored.subscribers with
    ⟨proper, members⟩
  refine ⟨proper, mirrored.subscriptions.erase clientFd, ?_⟩
  intro other channel
  have before := mirrored.mirror other channel
  have gone : (pubsub.removeClient clientFd).subscriptionsOf other =
      if other = clientFd then [] else pubsub.subscriptionsOf other :=
    SetMap.members_erase pubsub.clientSubscriptions clientFd other
  refine (members channel other).trans ?_
  rw [gone]
  by_cases own : other = clientFd
  · subst own
    rw [if_pos rfl]
    refine iff_of_false ?_ List.not_mem_nil
    rintro ⟨inside, outside⟩
    exact outside ⟨before.mp inside, rfl⟩
  · rw [if_neg own]
    refine Iff.trans ?_ before
    exact and_iff_left fun same => own same.2

theorem Mirrored.removeClients {pubsub : PubSub} (mirrored : pubsub.Mirrored)
    (closing : List Nat) : (closing.foldl PubSub.removeClient pubsub).Mirrored := by
  induction closing generalizing pubsub with
  | nil => exact mirrored
  | cons first rest induction => exact induction (mirrored.removeClient first)

theorem Mirrored.deliver {pubsub : PubSub} (mirrored : pubsub.Mirrored)
    (closing : Nat → List Nat) (messages : List (Nat × Bytes)) :
    (pubsub.deliver closing messages).1.Mirrored := by
  induction messages generalizing pubsub with
  | nil => exact mirrored
  | cons message rest induction =>
      exact induction (mirrored.removeClients (closing message.1))

/-- Every recipient is tried, whoever is lost on the way. -/
theorem deliver_attempts (closing : Nat → List Nat) (messages : List (Nat × Bytes)) :
    (pubsub.deliver closing messages).2 = messages := by
  induction messages generalizing pubsub with
  | nil => rfl
  | cons message rest induction =>
      have later := induction ((closing message.1).foldl PubSub.removeClient pubsub)
      unfold deliver
      dsimp only
      rw [later]

end Gone

/-! ## Runs -/

theorem Mirrored.step {pubsub : PubSub} (mirrored : pubsub.Mirrored) (event : PubSubEvent) :
    (pubsub.step event).Mirrored := by
  cases event with
  | subscribe clientFd channels resp3 =>
      change (Service.handleSubscribe pubsub clientFd _ resp3).1.Mirrored
      unfold Service.handleSubscribe
      by_cases short : (ascii "SUBSCRIBE" :: channels).length < 2
      · rw [if_pos short]
        exact mirrored
      · rw [if_neg short]
        exact mirrored.subscribeLoop clientFd resp3 [] channels
  | unsubscribe clientFd channels resp3 => exact mirrored.unsubscribe clientFd resp3 channels
  | publish channel message closing => exact mirrored.deliver closing _
  | disconnect clientFd => exact mirrored.removeClient clientFd

theorem Mirrored.run {pubsub : PubSub} (mirrored : pubsub.Mirrored) (events : List PubSubEvent) :
    (pubsub.run events).Mirrored := by
  induction events generalizing pubsub with
  | nil => exact mirrored
  | cons event rest induction => exact induction (mirrored.step event)

/-! ## Replies -/

section Replies

variable (pubsub : PubSub) (clientFd : Nat) (resp3 : Bool)

/-- The confirmation for a channel, with the number of subscriptions that are left. -/
def confirms (kind channel : Bytes) : Bytes :=
  confirmation resp3 kind ++ Resp.bulk channel ++
    integer (pubsub.subscriptionsOf clientFd).length

/-- `SUBSCRIBE` with channels. -/
def subscribed (channels : List Bytes) : PubSub × Bytes :=
  Service.handleSubscribe pubsub clientFd (ascii "SUBSCRIBE" :: channels) resp3

theorem subscribed_cons (first : Bytes) (rest : List Bytes) :
    pubsub.subscribed clientFd resp3 (first :: rest) =
      Service.subscribeLoop pubsub clientFd resp3 [] (first :: rest) := by
  unfold subscribed Service.handleSubscribe
  rw [if_neg]
  · rfl
  · simp

/-- Each channel adds one confirmation to the reply. -/
theorem subscribed_snoc (first : Bytes) (rest : List Bytes) (channel : Bytes) :
    (pubsub.subscribed clientFd resp3 (first :: rest ++ [channel])).2 =
      (pubsub.subscribed clientFd resp3 (first :: rest)).2 ++
        (pubsub.subscribed clientFd resp3 (first :: rest ++ [channel])).1.confirms clientFd resp3
          (ascii "subscribe") channel := by
  rw [List.cons_append, subscribed_cons, subscribed_cons, ← List.cons_append,
    subscribeLoop_append]
  exact congrArg _ (subscribe_reply _ clientFd resp3 channel)

theorem subscribed_single (channel : Bytes) :
    (pubsub.subscribed clientFd resp3 [channel]).2 =
      (pubsub.subscribed clientFd resp3 [channel]).1.confirms clientFd resp3
        (ascii "subscribe") channel := by
  rw [subscribed_cons]
  exact subscribe_reply pubsub clientFd resp3 channel

theorem unsubscribe_snoc (first : Bytes) (rest : List Bytes) (channel : Bytes) :
    (pubsub.unsubscribe clientFd (first :: rest ++ [channel]) resp3).2 =
      (pubsub.unsubscribe clientFd (first :: rest) resp3).2 ++
        (pubsub.unsubscribe clientFd (first :: rest ++ [channel]) resp3).1.confirms clientFd resp3
          (ascii "unsubscribe") channel := by
  unfold confirms
  rw [List.cons_append, unsubscribe_cons, unsubscribe_cons, ← List.cons_append,
    unsubscribeLoop_append, subscriptionsOf_settle, unsubscribeLoop_cons]
  rfl

theorem unsubscribe_single (channel : Bytes) :
    (pubsub.unsubscribe clientFd [channel] resp3).2 =
      (pubsub.unsubscribe clientFd [channel] resp3).1.confirms clientFd resp3
        (ascii "unsubscribe") channel := by
  unfold confirms
  rw [unsubscribe_cons, subscriptionsOf_settle, unsubscribeLoop_cons]
  rfl

/-- Every confirmation has the number of subscriptions that the client has after its step. -/
structure Counting : Prop where
  subscribeFirst : ∀ channel, (pubsub.subscribed clientFd resp3 [channel]).2 =
    (pubsub.subscribed clientFd resp3 [channel]).1.confirms clientFd resp3
      (ascii "subscribe") channel
  subscribeNext : ∀ first rest channel,
    (pubsub.subscribed clientFd resp3 (first :: rest ++ [channel])).2 =
      (pubsub.subscribed clientFd resp3 (first :: rest)).2 ++
        (pubsub.subscribed clientFd resp3 (first :: rest ++ [channel])).1.confirms clientFd resp3
          (ascii "subscribe") channel
  unsubscribeFirst : ∀ channel, (pubsub.unsubscribe clientFd [channel] resp3).2 =
    (pubsub.unsubscribe clientFd [channel] resp3).1.confirms clientFd resp3
      (ascii "unsubscribe") channel
  unsubscribeNext : ∀ first rest channel,
    (pubsub.unsubscribe clientFd (first :: rest ++ [channel]) resp3).2 =
      (pubsub.unsubscribe clientFd (first :: rest) resp3).2 ++
        (pubsub.unsubscribe clientFd (first :: rest ++ [channel]) resp3).1.confirms clientFd resp3
          (ascii "unsubscribe") channel
  unsubscribeAll : pubsub.subscriptionsOf clientFd ≠ [] →
    pubsub.unsubscribe clientFd [] resp3 =
      pubsub.unsubscribe clientFd (pubsub.subscriptionsOf clientFd) resp3
  unsubscribeNone : pubsub.subscriptionsOf clientFd = [] →
    pubsub.unsubscribe clientFd [] resp3 =
      (pubsub, confirmation resp3 (ascii "unsubscribe") ++ nil resp3 ++
        integer (pubsub.subscriptionsOf clientFd).length)

theorem counting : pubsub.Counting clientFd resp3 where
  subscribeFirst := pubsub.subscribed_single clientFd resp3
  subscribeNext := pubsub.subscribed_snoc clientFd resp3
  unsubscribeFirst := pubsub.unsubscribe_single clientFd resp3
  unsubscribeNext := pubsub.unsubscribe_snoc clientFd resp3
  unsubscribeAll := by
    intro some
    rcases List.exists_cons_of_ne_nil some with ⟨first, rest, own⟩
    rw [own]
    exact pubsub.unsubscribe_nil clientFd resp3 first rest own
  unsubscribeNone := by
    intro none
    rw [none]
    exact pubsub.unsubscribe_none clientFd resp3 none

end Replies

/-! ## The main result -/

/-- The clients that `PUBLISH` tries to reach, when its deliveries close clients. -/
def attempts (pubsub : PubSub) (channel message : Bytes) (closing : Nat → List Nat) : List Nat :=
  (pubsub.deliver closing (pubsub.publish channel message).1).2.map Prod.fst

theorem attempts_eq (pubsub : PubSub) (channel message : Bytes) (closing : Nat → List Nat) :
    pubsub.attempts channel message closing = pubsub.subscribersOf channel := by
  unfold attempts
  rw [deliver_attempts]
  unfold publish
  dsimp only
  rw [List.map_map]
  exact List.map_id _

/-- After any run the two maps mirror each other and hold no empty set, a client is in
subscribe mode exactly when it has a subscription, the confirmations count them, and
`PUBLISH` tries each client that is subscribed when it starts exactly once. -/
theorem subscriptions_mirrored (events : List PubSubEvent) :
    (∀ clientFd channel, clientFd ∈ (run {} events).subscribersOf channel ↔
      channel ∈ (run {} events).subscriptionsOf clientFd) ∧
    (∀ channel subscribers,
      (run {} events).channelSubscribers.lookup channel = some subscribers → subscribers ≠ []) ∧
    (∀ clientFd subscriptions,
      (run {} events).clientSubscriptions.lookup clientFd = some subscriptions →
        subscriptions ≠ []) ∧
    (∀ clientFd, (run {} events).isSubscribed clientFd = true ↔
      (run {} events).subscriptionsOf clientFd ≠ []) ∧
    (∀ clientFd, ((run {} events).subscriptionsOf clientFd).Nodup) ∧
    (∀ clientFd resp3, (run {} events).Counting clientFd resp3) ∧
    ∀ channel message closing,
      ((run {} events).attempts channel message closing).Nodup ∧
      ∀ clientFd, clientFd ∈ (run {} events).attempts channel message closing ↔
        channel ∈ (run {} events).subscriptionsOf clientFd := by
  have mirrored : (run {} events).Mirrored := mirrored_empty.run events
  refine ⟨mirrored.mirror, mirrored.subscribers.nonempty, mirrored.subscriptions.nonempty,
    mirrored.isSubscribed_iff, mirrored.subscriptions.distinct.members,
    fun clientFd resp3 => counting _ clientFd resp3, ?_⟩
  intro channel message closing
  rw [attempts_eq]
  exact ⟨mirrored.subscribers.distinct.members channel,
    fun clientFd => mirrored.mirror clientFd channel⟩

end PubSub

end SomniumDB
