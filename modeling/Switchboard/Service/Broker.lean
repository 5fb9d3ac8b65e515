import Switchboard.Bytes
import Switchboard.Service.Presence

/-!
# The broker

A broker passes every event to every subscriber. It holds the latest events only, a power of two of
them; a subscriber that falls behind is told how many it lost and goes on with the oldest that is
held. Subscribers start with the next event. A frame without subscribers is refused, so that whoever
published it can deliver it by other means; a presence event without subscribers is nobody's loss.
-/

namespace Switchboard

/-- What travels through a broker. -/
inductive BrokerEvent
  | direct (target : String) (frame : Bytes)
  | group (group sender : String) (frame : Bytes)
  | presence (event : PresenceEvent)
  deriving DecidableEq, Repr

/-- A broker: how many events it holds, all that were ever sent, and where each subscriber stands,
counted from the first event. -/
structure Broker where
  capacity : Nat
  sent : List BrokerEvent
  subscribers : Table Nat Nat
  /-- The number of the next subscriber. -/
  nextSubscriber : Nat

namespace Broker

/-- The least power of two that is at least `n`, among the first `fuel` ones from `p` on. -/
def powerFrom (n : Nat) : (fuel : Nat) → (p : Nat) → Nat
  | 0, p => p
  | fuel + 1, p => if n ≤ p then p else powerFrom n fuel (2 * p)

/-- A broker that holds at least `capacity` events. -/
def new (capacity : Nat) : Broker :=
  { capacity := powerFrom capacity 64 1, sent := [], subscribers := .empty, nextSubscriber := 0 }

def subscriberCount (b : Broker) : Nat := b.subscribers.size

/-- A new subscriber and its number. -/
def subscribe (b : Broker) : Nat × Broker :=
  (b.nextSubscriber,
    { b with
      subscribers := b.subscribers.insert b.nextSubscriber b.sent.length
      nextSubscriber := b.nextSubscriber + 1 })

def unsubscribe (b : Broker) (subscriber : Nat) : Broker :=
  { b with subscribers := b.subscribers.erase subscriber }

/-- Sends an event to every subscriber, if there is one. -/
def publish (b : Broker) (event : BrokerEvent) : Option Broker :=
  if b.subscribers.size = 0 then none else some { b with sent := b.sent ++ [event] }

/-- What a subscriber reads next. -/
inductive Reading
  | event (event : BrokerEvent)
  /-- So many events were lost. -/
  | lagged (missed : Nat)
  | nothing
  /-- It is no subscriber any more. -/
  | closed
  deriving DecidableEq, Repr

/-- The next thing a subscriber reads. -/
def read (b : Broker) (subscriber : Nat) : Reading × Broker :=
  match b.subscribers.get? subscriber with
  | none => (.closed, b)
  | some next =>
    let oldest := b.sent.length - b.capacity
    -- events were written over before the subscriber came to them
    if next < oldest then
      (.lagged (oldest - next), { b with subscribers := b.subscribers.insert subscriber oldest })
    else
      match b.sent[next]? with
      | some event =>
        (.event event, { b with subscribers := b.subscribers.insert subscriber (next + 1) })
      | none => (.nothing, b)

/-- Everything a subscriber can read now, at most `fuel` things. -/
def readAll (b : Broker) (subscriber : Nat) : (fuel : Nat) → List Reading × Broker
  | 0 => ([], b)
  | fuel + 1 =>
    match b.read subscriber with
    | (.nothing, b) => ([], b)
    | (.closed, b) => ([.closed], b)
    | (reading, b) =>
      let (readings, b) := b.readAll subscriber fuel
      (reading :: readings, b)

/-- Everything a subscriber can read now. -/
def drain (b : Broker) (subscriber : Nat) : List Reading × Broker :=
  b.readAll subscriber (b.sent.length + 2)

end Broker

end Switchboard
