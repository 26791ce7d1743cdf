import SomniumDB.Core.Commands

/-! # Channels and subscriptions (`pubsub.cpp`)

Sets are lists without repetition; their order is the order of iteration. -/

namespace SomniumDB

open Bytes

structure PubSub where
  channelSubscribers : FiniteMap Bytes (List Nat) := ∅
  clientSubscriptions : FiniteMap Nat (List Bytes) := ∅

namespace PubSub

def subscribersOf (pubsub : PubSub) (channel : Bytes) : List Nat :=
  (pubsub.channelSubscribers.lookup channel).getD []

def subscriptionsOf (pubsub : PubSub) (clientFd : Nat) : List Bytes :=
  (pubsub.clientSubscriptions.lookup clientFd).getD []

def isSubscribed (pubsub : PubSub) (clientFd : Nat) : Bool :=
  decide (clientFd ∈ pubsub.clientSubscriptions)

/-- The start of a confirmation: a push on RESP3, an array on RESP2. -/
def confirmation (resp3 : Bool) (kind : Bytes) : Bytes :=
  (if resp3 then ascii ">3\r\n" else ascii "*3\r\n") ++ Resp.bulk kind

def subscribe (pubsub : PubSub) (clientFd : Nat) (channel : Bytes) (resp3 : Bool) :
    PubSub × Bytes :=
  let subscribers := (pubsub.subscribersOf channel).insert clientFd
  let subscriptions := (pubsub.subscriptionsOf clientFd).insert channel
  ({ channelSubscribers := pubsub.channelSubscribers.insert channel subscribers
     clientSubscriptions := pubsub.clientSubscriptions.insert clientFd subscriptions },
    confirmation resp3 (ascii "subscribe") ++ Resp.bulk channel ++ integer subscriptions.length)

/-- `publish`: the message for each subscriber, and the reply with their number. -/
def publish (pubsub : PubSub) (channel message : Bytes) : List (Nat × Bytes) × Bytes :=
  let targets := pubsub.subscribersOf channel
  (targets.map fun clientFd =>
      (clientFd, ascii "*3\r\n" ++ Resp.bulk (ascii "message") ++ Resp.bulk channel ++
        Resp.bulk message),
    integer targets.length)

/-- A client leaves the subscribers of a channel; an empty set is removed. -/
def leave (subscribers : FiniteMap Bytes (List Nat)) (clientFd : Nat) (channel : Bytes) :
    FiniteMap Bytes (List Nat) :=
  match subscribers.lookup channel with
  | none => subscribers
  | some members =>
      if members.erase clientFd = [] then subscribers.erase channel
      else subscribers.insert channel (members.erase clientFd)

/-- The loop of `unsubscribe`, with the replies built so far. The set of the client stays
while the loop runs, even when it is empty. -/
def unsubscribeLoop (pubsub : PubSub) (clientFd : Nat) (resp3 : Bool) :
    Bytes → List Bytes → PubSub × Bytes
  | replies, [] => (pubsub, replies)
  | replies, channel :: rest =>
      let mine := pubsub.clientSubscriptions.lookup clientFd
      let left := (mine.getD []).erase channel
      let parted : PubSub :=
        { channelSubscribers := leave pubsub.channelSubscribers clientFd channel
          clientSubscriptions :=
            if mine.isSome then pubsub.clientSubscriptions.insert clientFd left
            else pubsub.clientSubscriptions }
      parted.unsubscribeLoop clientFd resp3
        (replies ++ (confirmation resp3 (ascii "unsubscribe") ++ Resp.bulk channel ++
          integer left.length)) rest

/-- The channels that an `UNSUBSCRIBE` is about: those given, or all of the client's. -/
def leftBy (pubsub : PubSub) (clientFd : Nat) (channels : List Bytes) : List Bytes :=
  if channels = [] then pubsub.subscriptionsOf clientFd else channels

def unsubscribe (pubsub : PubSub) (clientFd : Nat) (channels : List Bytes) (resp3 : Bool) :
    PubSub × Bytes :=
  let channels := pubsub.leftBy clientFd channels
  if channels = [] then
    (pubsub, confirmation resp3 (ascii "unsubscribe") ++ nil resp3 ++ integer 0)
  else
    let (parted, replies) := pubsub.unsubscribeLoop clientFd resp3 [] channels
    (if parted.clientSubscriptions.lookup clientFd = some [] then
      { parted with clientSubscriptions := parted.clientSubscriptions.erase clientFd }
    else parted, replies)

/-- `remove_client`: the routes of a connection that has gone. -/
def removeClient (pubsub : PubSub) (clientFd : Nat) : PubSub :=
  { channelSubscribers := (pubsub.subscriptionsOf clientFd).foldl
      (fun subscribers channel => leave subscribers clientFd channel) pubsub.channelSubscribers
    clientSubscriptions := pubsub.clientSubscriptions.erase clientFd }

end PubSub

end SomniumDB
