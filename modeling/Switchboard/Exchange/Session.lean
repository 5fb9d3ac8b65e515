import Switchboard.Exchange.Routing

/-!
# Sessions

A session moves frames between a connection and the socket of its client. The reader takes what the
client sends, one thing after another, until the client says goodbye or the socket ends: a heartbeat
is answered at once, every other message goes to the work queue of the shard, and what cannot be
read is skipped. The writer writes what is queued at the connection and asks for a sign of life at
every interval; a client that was silent for too long is given up. Whichever of the two stops first
cancels the connection, which stops the other one, and then the connection is unregistered.
-/

namespace Switchboard

/-- A socket that was just opened. -/
def Socket.new (wire : Wire) (keepalive : Keepalive) (ticks : Moment) : Socket :=
  { wire, incoming := [], outgoing := [], isReading := true, isWriting := true,
    isRegistered := true, isBroken := false, keepalive
    nextPing := ticks + keepalive.interval }

/-- What the reader gets for something that the client sends. -/
def Wire.pass : Wire → Incoming → Incoming
  | .webSocket limit, .binary frame => if limit < frame.length then .failure else .binary frame
  | .webSocket limit, .text frame => if limit < frame.utf8ByteSize then .failure else .text frame
  | _, item => item

/-- What the socket answers by itself. -/
def Wire.answer : Wire → Incoming → List Outgoing
  | .webSocket _, .ping length => [.pong length]
  | _, _ => []

namespace Exchange

def putSocket (x : Exchange) (session : Session) (s : Socket) : Exchange :=
  x.mapPool fun p => { p with sockets := p.sockets.insert session s }

/-- The writer is gone, and with it whatever was still queued. -/
def dropWriter (x : Exchange) (session : Session) : Exchange :=
  (x.mapSocket session fun s => { s with isWriting := false }).mapConnection session
    fun c => c.cancel.dropReceiver

/-- Opens a socket for a connection. A writer that can set no timer breaks off at once. -/
def openSocket (x : Exchange) (session : Session) (wire : Wire) (keepalive : Keepalive) :
    Exchange :=
  let x := x.putSocket session (.new wire keepalive x.ticks)
  if Time.isPeriod keepalive.interval then x else x.dropWriter session

/-- Gives up the socket of a connection whose registration broke off. The connection stays where it
is, though nobody takes what is queued there. -/
def abandonSocket (x : Exchange) (session : Session) (wire : Wire) (keepalive : Keepalive) :
    Exchange :=
  let s := Socket.new wire keepalive x.ticks
  (x.putSocket session { s with isReading := false, isWriting := false, isRegistered := false })
    |>.mapConnection session Connection.dropReceiver

def socket? (x : Exchange) (session : Session) : Option Socket := x.pool.sockets.get? session

/-- Something that the client of a session sends. Tells whether the socket took it. -/
def clientSends (x : Exchange) (session : Session) (items : List Incoming) : Bool × Exchange :=
  match x.socket? session with
  | none => (false, x)
  | some s =>
    (s.isReading, if s.isReading then
      x.mapSocket session fun s => { s with incoming := s.incoming ++ items } else x)

/-- From now on nothing can be written to the client of a session. -/
def breakSocket (x : Exchange) (session : Session) : Exchange :=
  x.mapSocket session fun s => { s with isBroken := true }

/-- What was written to the client of a session since the last time. -/
def clientReceives (x : Exchange) (session : Session) : List Outgoing × Exchange :=
  match x.socket? session with
  | none => ([], x)
  | some s => (s.outgoing, x.mapSocket session fun s => { s with outgoing := [] })

/-- The frames that wait at a connection without a session, taken by its client. -/
def takeFrames (x : Exchange) (session : Session) : List Bytes × Exchange :=
  match x.connection? session with
  | none => ([], x)
  | some c => (c.outbound.items, x.putConnection { c with outbound := c.outbound.clear })

/-! ## The reader -/

/-- A sign of life from the client of a connection. -/
def touch (x : Exchange) (session : Session) : Exchange :=
  x.mapConnection session fun c => c.touch x.now

/-- What becomes of an envelope from a client: a heartbeat is answered, and any other is queued for
routing. -/
def takeIn (x : Exchange) (session : Session) (e : Envelope) (raw : Bytes) : Exchange :=
  if e.isHeartbeat then
    ((x.touch session).sendTo session (Envelope.pong x.timestamp).encode).2
  else
    match x.connection? session with
    | some { shard := some shard, .. } => (x.enqueueEnvelope shard e raw).2
    | _ => x

/-- The reader is done. -/
def stopReader (x : Exchange) (session : Session) : Exchange :=
  (x.mapSocket session fun s => { s with isReading := false, incoming := [] }).mapConnection session
    Connection.cancel

/-- What the reader does with one thing that the client sent. -/
def readItem (x : Exchange) (session : Session) : Incoming → Exchange
  | .binary frame =>
    match Envelope.decode frame with
    | .ok e => x.takeIn session e frame
    | .error _ => x
  | .text frame =>
    match Envelope.ofTextFrame frame with
    | .ok e => x.takeIn session e e.encode
    | .error _ => x
  | .ping _ | .pong => x.touch session
  | .close | .failure | .ended => x.stopReader session

/-- One step of the reader of a session. -/
def read (x : Exchange) (session : Session) : Exchange :=
  match x.socket? session, x.connection? session with
  | some s, some c =>
    if !s.isReading then x
    else if c.isCancelled then x.stopReader session
    else
      match s.incoming with
      | [] => x
      | item :: rest =>
        -- what a socket answers by itself comes before what the reader does
        let x := x.mapSocket session fun s =>
          { s with incoming := rest, outgoing := s.outgoing ++ s.wire.answer item }
        x.readItem session (s.wire.pass item)
  | _, _ => x

/-! ## The writer -/

/-- Writes something to the client of a session. -/
def emit (x : Exchange) (session : Session) (item : Outgoing) : Exchange :=
  x.mapSocket session fun s => { s with outgoing := s.outgoing ++ [item] }

/-- The writer is done and closes the socket. -/
def stopWriter (x : Exchange) (session : Session) : Exchange :=
  (x.emit session .closed).dropWriter session

/-- One step of the writer of a session. -/
def write (x : Exchange) (session : Session) : Exchange :=
  match x.socket? session, x.connection? session with
  | some s, some c =>
    if !s.isWriting then x
    else if c.isCancelled then x.stopWriter session
    else
      match c.outbound.take? with
      | none => x
      | some (frame, outbound) =>
        let x := x.putConnection { c with outbound }
        -- a frame that cannot be written is lost with the writer
        if s.isBroken then x.stopWriter session else x.emit session (.frame frame)
  | _, _ => x

/-- The writer asks for a sign of life, or gives the client up. -/
def ping (x : Exchange) (session : Session) : Exchange :=
  match x.socket? session, x.connection? session with
  | some s, some c =>
    if !s.isWriting then x
    else
      let x := x.mapSocket session fun s =>
        { s with nextPing := x.ticks + s.keepalive.interval }
      if c.isCancelled || s.isBroken || s.keepalive.timeout < c.heartbeatAge x.now then
        x.stopWriter session
      else x.emit session .ping
  | _, _ => x

/-! ## The end -/

/-- Whether reader and writer have stopped and the connection was not unregistered yet. -/
def Socket.isOver (s : Socket) : Bool := s.isRegistered && !s.isReading && !s.isWriting

/-- Unregisters the connection of a session that is over. -/
def conclude (x : Exchange) (session : Session) : Exchange :=
  match x.socket? session, x.connection? session with
  | some s, some { shard := some shard, .. } =>
    if Socket.isOver s then
      -- so that a session ends once
      let x := x.mapSocket session fun s => { s with isRegistered := false }
      (x.unregister shard session).2
    else x
  | _, _ => x

end Exchange

end Switchboard
