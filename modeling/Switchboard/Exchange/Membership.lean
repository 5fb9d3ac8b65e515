import Switchboard.Exchange.Basic

/-!
# Coming and going

A client is admitted to a shard, registered there, and unregistered when its session ends. Each of
the steps below takes one lock and changes what that lock guards; `register` and `unregister` are
sequences of such steps, and the steps of different connections may come in any order. A newer
connection of an identity takes the place of an older one wherever that is, without anybody being
told that the identity went away.
-/

namespace Switchboard.Exchange

/-! ## Admission -/

/-- The least-loaded of some shards, the first of several. -/
def leastLoaded : List Shard → Option Shard
  | [] => none
  | s :: shards =>
    match leastLoaded shards with
    | some t => if t.load < s.load then some t else some s
    | none => some s

/-- Whether every shard has reached the threshold. -/
def isSaturated (x : Exchange) : Bool :=
  x.pool.shards.all fun s => x.config.pool.loadThreshold ≤ s.load

/-- The exchange with one more shard. -/
def grow (x : Exchange) : Exchange :=
  let s := Shard.new x.pool.shards.length x.config x.ticks
  let s := if x.pool.isShutDown then s.stop else s
  x.mapPool fun p => { p with shards := p.shards ++ [s] }

/-- Counts a new connection at the least-loaded shard. -/
def assign (x : Exchange) : Except Fault Nat × Exchange :=
  match leastLoaded x.pool.shards with
  | some s => (.ok s.id, x.mapShard s.id fun s => { s with load := s.load + 1 })
  | none => (.error (.poolExhausted 0 x.config.pool.loadThreshold), x)

/-- Chooses the shard for a new connection. A saturated pool grows; one that cannot grow refuses or
goes over the threshold, as it is configured. -/
def place (x : Exchange) : Except Fault Nat × Exchange :=
  let size := x.pool.shards.length
  if x.isSaturated then
    -- a pool without shards is saturated, too
    if size < x.config.pool.maxShards then x.grow.assign
    else if x.config.pool.rejectWhenSaturated ∨ size = 0 then
      (.error (.poolExhausted size x.config.pool.loadThreshold), x)
    else x.assign
  else x.assign

/-- Takes one connection off a shard's load. -/
def releaseLoad (x : Exchange) (shard : Nat) : Exchange :=
  x.mapShard shard fun s => { s with load := s.load - 1 }

/-! ## Steps -/

/-- Gives the identity of a connection to it at a shard, and tells who held it there. -/
def hold (x : Exchange) (shard : Nat) (session : Session) : Option Session × Exchange :=
  match x.connection? session with
  | none => (none, x)
  | some c =>
    let x := x.putConnection { c with shard := some shard }
    (x.holder? shard c.identity,
      x.mapShard shard fun s => { s with registry := (s.registry.hold c.identity session).2 })

/-- Closes a connection that has left its shard's registry, and takes it off the load the first
time. -/
def retire (x : Exchange) (shard : Nat) (session : Session) : Exchange :=
  match x.connection? session with
  | none => x
  | some c =>
    let (first, c) := c.close
    let x := x.putConnection c
    -- whoever closes a connection first takes it off the load, and nobody else does
    if first then x.releaseLoad shard else x

/-- Points an identity at a shard, and tells where it pointed before. -/
def track (x : Exchange) (identity : String) (shard : Nat) : Option Nat × Exchange :=
  (x.pool.index.get? identity,
    x.mapPool fun p => { p with index := p.index.insert identity shard })

/-- Takes an identity from whoever holds it at a shard, unless it is the session to keep. -/
def evict (x : Exchange) (shard : Nat) (identity : String) (keep : Session) : Exchange :=
  match x.shard? shard with
  | none => x
  | some s =>
    match s.registry.expel identity keep with
    | (none, _) => x
    | (some stale, registry) =>
      (x.mapShard shard fun s => { s with registry }).retire shard stale

/-- Calls the presence service to change something, and tells whether the caller goes on. A call that
fails changes nothing. -/
def changePresence (x : Exchange) (call : ServiceCall) (f : Presence → Presence) :
    Bool × Exchange :=
  match x.attempt call with
  | (.ok (), x) => (true, { x with services.presence := f x.services.presence })
  | (.error (.fault _), x) => (true, x)
  | (.error .crash, x) => (false, x)

/-- Sets the presence bit of an identity, if the service is not out. -/
def setOnline (x : Exchange) (identity : String) : Bool × Exchange :=
  x.changePresence .setOnline (·.setOnline identity)

/-- Clears the presence bit of an identity, if the service is not out. -/
def setOffline (x : Exchange) (identity : String) : Bool × Exchange :=
  x.changePresence .setOffline (·.setOffline identity)

/-- Takes the identity of a connection from it at a shard, if it still holds it. -/
def letGo (x : Exchange) (shard : Nat) (c : Connection) : Bool × Exchange :=
  match x.shard? shard with
  | none => (false, x)
  | some s =>
    let (held, registry) := s.registry.release c.identity c.session
    (held, x.mapShard shard fun s => { s with registry })

/-- Forgets where an identity is and clears its presence bit, if it still points at the shard and no
connection holds it there. Tells whether that was done to the end. -/
def untrack (x : Exchange) (identity : String) (shard : Nat) : Bool × Exchange :=
  if x.pool.index.get? identity = some shard ∧ (x.holder? shard identity).isNone then
    (x.mapPool fun p => { p with index := p.index.erase identity }).setOffline identity
  else (false, x)

/-- What is told of a connection that came or went. -/
def presenceEvent (x : Exchange) (kind : PresenceKind) (shard : Nat) (c : Connection) :
    PresenceEvent :=
  let event : PresenceEvent := { kind, identity := c.identity, metadata := [], timestamp := x.now }
  let event := event.note "connection_time" (Time.render c.connectedAt)
  let event := event.note "shard_id" (toString shard)
  match c.remoteAddress with
  | some address => event.note "remote_addr" address.render
  | none => event

/-- Publishes an event, if there is a broker and anybody listens. -/
def announce (x : Exchange) (event : PresenceEvent) : Exchange :=
  match x.services.publishing with
  | .broker broker =>
    match broker.publish (.presence event) with
    | some broker => { x with services.publishing := .broker broker }
    | none => x
  | _ => x

/-! ## Whole calls -/

/-- Closes whoever held the identity of a connection at its shard before it. -/
def retireDisplaced (x : Exchange) (shard : Nat) (session : Session) :
    Option Session → Exchange
  | some stale => if stale = session then x else x.retire shard stale
  | none => x

/-- Points an identity at a shard, and evicts it from the shard it pointed at before. -/
def moveTo (x : Exchange) (shard : Nat) (identity : String) (session : Session) : Exchange :=
  match x.track identity shard with
  | (some previous, x) => if previous = shard then x else x.evict previous identity session
  | (none, x) => x

/-- Makes a connection the one that speaks for its identity, and tells whether that was done to the
end: it breaks off with the presence service, before anybody is told. -/
def register (x : Exchange) (shard : Nat) (session : Session) : Bool × Exchange :=
  match x.connection? session with
  | none => (true, x)
  | some c =>
    let (displaced, x) := x.hold shard session
    let x := x.retireDisplaced shard session displaced
    -- without its pool a shard registers at its own registry only
    let x := if x.pool.isReachable then x.moveTo shard c.identity session else x
    match x.setOnline c.identity with
    | (true, x) => (true, x.announce (x.presenceEvent .online shard c))
    | (false, x) => (false, x)

/-- Opens a connection at a shard and registers it there. -/
def enter (x : Exchange) (shard : Nat) (identity : String) (remoteAddress : Option SocketAddress)
    (capacity : Nat) : Session × Exchange :=
  let (session, x) := x.openConnection identity remoteAddress capacity
  (session, (x.register shard session).2)

/-- Forgets an identity whose connection has left a shard, and tells whether it went away with it. -/
def depart (x : Exchange) (shard : Nat) (identity : String) : Bool × Exchange :=
  if x.pool.isReachable then x.untrack identity shard else x.setOffline identity

/-- Ends a connection at its shard, and tells whether it was still registered there. -/
def unregister (x : Exchange) (shard : Nat) (session : Session) : Bool × Exchange :=
  match x.connection? session with
  | none => (false, x)
  | some c =>
    match x.letGo shard c with
    -- superseded: the identity belongs to a newer connection
    | (false, x) => (false, x)
    | (true, x) =>
      let x := x.retire shard session
      let (gone, x) := x.depart shard c.identity
      (true, if gone then x.announce (x.presenceEvent .offline shard c) else x)

end Switchboard.Exchange
