import Switchboard.Config.Basic
import Switchboard.Connection
import Switchboard.Fragment.Assembler
import Switchboard.Service.Services

/-!
# The exchange

An exchange spreads its connections over shards. A shard owns the connections it registered, a
queue of messages to route, a queue of frames that other shards hand over, and the fragments it is
joining. The pool knows all shards and which of them speaks for each identity. Everything that the
exchange does is a function from one state to the next.
-/

namespace Switchboard

/-- Where a task comes from. -/
inductive Origin
  /-- A connection of the shard itself. -/
  | inbound
  /-- Another shard, for one identity. -/
  | forwarded (target : String)
  deriving DecidableEq, Repr

/-- A message that waits to be routed, with the octets it came in. -/
structure Task where
  envelope : Envelope
  raw : Bytes
  origin : Origin
  deriving DecidableEq, Repr

/-- A frame on its way to the shard of its target. -/
structure Handover where
  target : String
  frame : Bytes
  deriving DecidableEq, Repr

/-- What a shard has done so far. -/
structure Counters where
  /-- Frames that came from other shards. -/
  forwarded : Nat := 0
  /-- Messages written to connections. -/
  delivered : Nat := 0
  /-- Messages and frames that were given up. -/
  dropped : Nat := 0
  /-- Messages kept for targets that were away. -/
  persisted : Nat := 0
  /-- Tasks that broke off. -/
  faults : Nat := 0
  deriving DecidableEq, Repr

structure Shard where
  id : Nat
  registry : Registry
  /-- The number of connections that were admitted and have not left. -/
  load : Nat
  work : Queue Task
  forward : Queue Handover
  assembler : Assembler
  counters : Counters
  /-- The tasks that processors have taken, the first taken first. -/
  inHand : List Task
  /-- When forgotten fragments are looked for next, on the clock of the timers. -/
  nextSweep : Moment

namespace Shard

/-- The time between two looks for forgotten fragments. -/
def sweepPeriod (config : Config) : Nat := max (milliseconds config.fragment.sweepInterval) 1000

/-- A shard without connections. Its coordinator breaks off at once if no timer can tell it when to
look for forgotten fragments; then nobody takes what other shards hand over. -/
def new (id : Nat) (config : Config) (ticks : Moment) : Shard :=
  let forward := Queue.new config.shard.forwardQueueCapacity
  { id, registry := .empty, load := 0
    work := .new config.shard.workQueueCapacity
    forward := if Time.isPeriod (sweepPeriod config) then forward else forward.drop
    assembler := .new config.fragment.limits
    counters := {}, inHand := []
    nextSweep := ticks + sweepPeriod config }

/-- The shard without tasks and without anybody to take them. -/
def stop (s : Shard) : Shard :=
  { s with work := s.work.drop, forward := s.forward.drop, inHand := [] }

end Shard

/-- What a client sends over its socket. -/
inductive Incoming
  | binary (frame : Bytes)
  | text (frame : String)
  /-- With so many octets. -/
  | ping (length : Nat)
  | pong
  /-- The client says goodbye. -/
  | close
  /-- The socket fails. -/
  | failure
  /-- The socket ends. -/
  | ended
  deriving DecidableEq, Repr

/-- What is written to a client's socket. -/
inductive Outgoing
  | frame (frame : Bytes)
  | ping
  /-- The answer to a ping of so many octets. -/
  | pong (length : Nat)
  | closed
  deriving DecidableEq, Repr

/-- What a socket does by itself. -/
inductive Wire
  /-- It passes on everything. -/
  | plain
  /-- It answers pings, and fails at a message of more octets than the limit. -/
  | webSocket (limit : Nat)
  deriving DecidableEq, Repr

/-- The socket of a session, and how far its reader, its writer and its end have come. -/
structure Socket where
  wire : Wire
  /-- What the client has sent and nobody read. -/
  incoming : List Incoming
  /-- What was written and the client has not fetched. -/
  outgoing : List Outgoing
  isReading : Bool
  isWriting : Bool
  /-- Whether the connection is still to be unregistered when reader and writer have stopped. -/
  isRegistered : Bool
  /-- Whether writing fails. -/
  isBroken : Bool
  keepalive : Keepalive
  /-- When the client is asked for a sign of life next, on the clock of the timers. -/
  nextPing : Moment

/-- A prompt that waits for the assistant's answer, at the shard that routed it. -/
structure Prompt where
  shard : Nat
  message : Envelope

/-- The shards, and which of them speaks for each identity. -/
structure Pool where
  /-- In order of their numbers. -/
  shards : List Shard
  index : Table String Nat
  /-- Whether the shards can still reach the index. -/
  isReachable : Bool
  isShutDown : Bool
  sockets : Table Session Socket
  /-- The oldest first. -/
  prompts : List Prompt
  /-- The subscriber number of the consumer that writes published frames to the connections here. -/
  consumer : Option Nat

structure Exchange where
  config : Config
  pool : Pool
  /-- Every connection there ever was. -/
  connections : Table Session Connection
  services : Services
  now : Moment
  /-- The clock of the timers. -/
  ticks : Moment
  nextSession : Session
  /-- The number of identities handed out so far. -/
  issued : Nat

namespace Pool

/-- A pool with as many shards as the configuration starts with. -/
def new (config : Config) (ticks : Moment) : Pool :=
  { shards := (List.range config.pool.initialShards).map fun id => .new id config ticks
    index := .empty, isReachable := true, isShutDown := false, sockets := .empty, prompts := [],
    consumer := none }

def shard? (p : Pool) (id : Nat) : Option Shard := p.shards[id]?

def mapShard (p : Pool) (id : Nat) (f : Shard → Shard) : Pool :=
  { p with shards := p.shards.modify id f }

/-- The sessions of every shard. -/
def sessions (p : Pool) : List Session := p.shards.flatMap fun s => s.registry.values

end Pool

namespace Exchange

/-- A new exchange, with the time of its start. -/
def new (config : Config) (services : Services) (now : Moment) : Exchange :=
  { config, pool := .new config 0, connections := .empty, services, now,
    ticks := 0, nextSession := 0, issued := 0 }

def shard? (x : Exchange) (id : Nat) : Option Shard := x.pool.shard? id

def mapPool (x : Exchange) (f : Pool → Pool) : Exchange := { x with pool := f x.pool }

def mapShard (x : Exchange) (id : Nat) (f : Shard → Shard) : Exchange :=
  { x with pool := x.pool.mapShard id f }

def mapCounters (x : Exchange) (id : Nat) (f : Counters → Counters) : Exchange :=
  x.mapShard id fun s => { s with counters := f s.counters }

def connection? (x : Exchange) (session : Session) : Option Connection :=
  x.connections.get? session

def putConnection (x : Exchange) (c : Connection) : Exchange :=
  { x with connections := x.connections.insert c.session c }

def mapConnection (x : Exchange) (session : Session) (f : Connection → Connection) : Exchange :=
  match x.connection? session with
  | some c => x.putConnection (f c)
  | none => x

def mapSocket (x : Exchange) (session : Session) (f : Socket → Socket) : Exchange :=
  match x.pool.sockets.get? session with
  | some s => x.mapPool fun p => { p with sockets := p.sockets.insert session (f s) }
  | none => x

/-- The connection that holds an identity on a shard. -/
def holder? (x : Exchange) (shard : Nat) (identity : String) : Option Session :=
  match x.shard? shard with
  | some s => s.registry.holder identity
  | none => none

/-- The identity with a given number, in the form of a UUID. -/
def formatId (n : Nat) : String :=
  let digits := Nat.toDigits 16 n
  "00000000-0000-4000-8000-"
    ++ String.ofList (List.replicate (12 - digits.length) '0' ++ digits)

/-- An identity that was not handed out before. -/
def freshId (x : Exchange) : String × Exchange :=
  (formatId x.issued, { x with issued := x.issued + 1 })

/-- The time for an envelope. -/
def timestamp (x : Exchange) : Int64 := Int64.ofNat x.now

/-- A connection that is not registered yet. -/
def openConnection (x : Exchange) (identity : String) (remoteAddress : Option SocketAddress)
    (capacity : Nat) : Session × Exchange :=
  let session := x.nextSession
  let c := Connection.new identity session remoteAddress capacity x.now
  (session, { x.putConnection c with nextSession := session + 1 })

/-- Asks whether a call of a service succeeds. -/
def attempt (x : Exchange) (call : ServiceCall) : Except Stop Unit × Exchange :=
  let (result, services) := x.services.attempt call
  (result, { x with services })

end Exchange

end Switchboard
