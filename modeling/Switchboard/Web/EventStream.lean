import Switchboard.Service.Broker

/-!
# Streams of presence events

A client may follow who comes and goes. Its stream passes on the presence events of the kinds that
it asked for; events that it was too slow for are lost to it.
-/

namespace Switchboard.Web

/-- A subscriber of the broker, and the kinds that it asked for; none means all. -/
structure EventStream where
  subscriber : Nat
  kinds : Option (List PresenceKind)
  deriving DecidableEq, Repr

namespace EventStream

/-- Whether a stream passes an event on. -/
def wants (s : EventStream) (e : PresenceEvent) : Bool :=
  match s.kinds with
  | none => true
  | some kinds => kinds.contains e.kind

/-- The event in something that was read, if the stream passes it on. -/
def select (s : EventStream) : Broker.Reading → Option PresenceEvent
  | .event (.presence e) => if s.wants e then some e else none
  | _ => none

end EventStream

end Switchboard.Web
