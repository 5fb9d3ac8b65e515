import Switchboard.Fault
import Switchboard.Queue
import Switchboard.Registry
import Switchboard.SocketAddress
import Switchboard.Time

/-!
# Connections

A connection is the exchange's side of one socket: whose it is, the queue of frames that wait to be
written, and when its client last gave a sign of life. It belongs to a shard from its registration
on. Once it is closed it takes no more frames; closing also tells its session to stop.
-/

namespace Switchboard

structure Connection where
  identity : String
  session : Session
  remoteAddress : Option SocketAddress
  connectedAt : Moment
  lastHeartbeat : Moment
  outbound : Queue Bytes
  isClosed : Bool
  /-- Whether its session was told to stop. -/
  isCancelled : Bool
  /-- The number of the shard it belongs to. -/
  shard : Option Nat

namespace Connection

/-- The number that stands for no shard. -/
def unassigned : Nat := UInt64.size - 1

def new (identity : String) (session : Session) (remoteAddress : Option SocketAddress)
    (capacity : Nat) (now : Moment) : Connection :=
  { identity, session, remoteAddress, connectedAt := now, lastHeartbeat := now,
    outbound := .new capacity, isClosed := false, isCancelled := false, shard := none }

/-- The number of the shard, or the one that stands for none. -/
def shardNumber (c : Connection) : Nat := c.shard.getD unassigned

/-- Queues a frame for writing. -/
def send (c : Connection) (frame : Bytes) : Except Fault Connection :=
  if c.isClosed then .error (.transport s!"connection {c.identity} is closed")
  else
    match c.outbound.offer frame with
    | .ok outbound => .ok { c with outbound }
    | .error .full => .error (.queueFull "outbound")
    | .error .closed => .error (.transport s!"write loop of {c.identity} has exited")

/-- Notes a sign of life. -/
def touch (c : Connection) (now : Moment) : Connection := { c with lastHeartbeat := now }

/-- How long ago the last sign of life was. -/
def heartbeatAge (c : Connection) (now : Moment) : Nat := now - c.lastHeartbeat

/-- Whoever wrote the frames is gone, and with it what was queued. -/
def dropReceiver (c : Connection) : Connection := { c with outbound := c.outbound.drop }

/-- Tells the session to stop. -/
def cancel (c : Connection) : Connection := { c with isCancelled := true }

/-- Closes the connection, and tells whether this is the first time. -/
def close (c : Connection) : Bool × Connection :=
  if c.isClosed then (false, c) else (true, { c with isClosed := true, isCancelled := true })

end Connection

end Switchboard
