import Switchboard.Exchange.Membership

/-!
# Routing

A message for one identity goes to its connection: straight to the queue of the connection if that is
on the same shard, else by the forward queue of the shard that has it; the one whose target is away
is kept for later. A message for a group goes the same way to every member but its sender, and what
happens to one member does not touch the others. With a broker, frames for connections of the
exchange are published instead and written by whoever listens; when nobody does, they are written as
if there were no broker.

A message that does not fit a frame is split once, and every target gets the same fragments. The
fragments that a client sends are passed on as they are; for targets that are away they are joined
first, once for all of them.

## One step for a task

A task is routed from beginning to end before anything else happens (`routeTask`). It waits for
services on the way, and others go on meanwhile, so steps could be taken as small as one call or one
frame. Nothing is lost by taking them together:

* Of what a task reads, who is connected, online and a member changes as clients come and go and
  groups change, not by what processors, coordinators and the consumer do. While it stays as it is
  it does not matter when it is read. Otherwise a task for one target asks once whether it is online
  and once where it is, and two answers of two moments are answers that an exchange can give at one
  moment, since presence, index and registries need not agree; invariants of all histories ask for
  no agreement either. To look at a registry again for somebody who has just come is to look later,
  and is left out.
* What a task writes it adds at the end of something: the queue of a connection, a forward queue, the
  broker, the store, the prompts, a counter. Tasks that take turns add the same things, each in its
  own order, and what is said of a message is said of its own frames, whatever stands between them.
  The fragments that are being joined are behind a lock, so that taking one in is one step anyway.
* Whether a frame finds room is settled when it is queued. What is said for queues of any fill level
  names the first frames of a message, up to the one that is refused; what asks for room asks for
  room for all that is under way, whatever the order.
* Whether a task is overtaken by another one is not settled by when it is routed to the end: it is
  taken in one step and routed in another one (`Action.take`, `Action.finish`), and processors
  finish in any order.

Frames that are published are the one place where the steps could be told apart: a task publishes all
of them before anybody reads the first. A consumer that keeps up is therefore one whose broker holds
the frames of a whole task, where one that reads in between would do with less.
-/

namespace Switchboard

/-- The message that targets get who are away, joined from the fragment that is being routed. -/
inductive Copy
  /-- Nobody asked for it yet. -/
  | unresolved
  /-- Other fragments are missing, or this one was refused. -/
  | waiting
  | whole (message : Envelope)
  deriving DecidableEq, Repr

/-- A task under way. -/
structure Errand where
  exchange : Exchange
  copy : Copy
  /-- The envelopes that the assembler of the shard was given for the task. -/
  given : List Envelope := []

/-- A part of the routing of one task: what was changed stays changed if it stops. -/
abbrev Routing (α : Type) := ExceptT Stop (StateM Errand) α

/-- Where a target is, seen from a shard. -/
inductive Whereabouts
  /-- It has a connection on the shard. -/
  | here (session : Session)
  | elsewhere (shard : Nat)
  /-- No shard of the pool is known to have it. -/
  | nowhere
  deriving DecidableEq, Repr

namespace Exchange

/-- Where a target is, seen from a shard. -/
def whereabouts (x : Exchange) (shard : Nat) (target : String) : Whereabouts :=
  match x.holder? shard target with
  | some session => .here session
  | none =>
    if x.pool.isReachable then
      match x.pool.index.get? target with
      -- the index may still point here though the registry has nobody any more
      | some owner => if owner = shard then .nowhere else .elsewhere owner
      | none => .nowhere
    -- a shard that outlived its pool knows its own connections only
    else .nowhere

/-- Whether a target has a connection in the exchange, seen from a shard. -/
def isConnected (x : Exchange) (shard : Nat) (target : String) : Bool :=
  if x.pool.isReachable then x.pool.index.contains target else (x.holder? shard target).isSome

/-- Queues a frame at a connection. -/
def sendTo (x : Exchange) (session : Session) (frame : Bytes) : Except Fault Unit × Exchange :=
  match x.connection? session with
  | none => (.error (.transport "no such connection"), x)
  | some c =>
    match c.send frame with
    | .ok c => (.ok (), x.putConnection c)
    | .error fault => (.error fault, x)

/-- The connections a notice goes to, seen from a shard. -/
def audience (x : Exchange) (shard : Nat) : List Session :=
  if x.pool.isReachable then x.pool.sessions
  else
    match x.shard? shard with
    | some s => s.registry.values
    | none => []

/-- Queues a frame at every connection that takes it. -/
def broadcast (x : Exchange) (shard : Nat) (frame : Bytes) : Exchange :=
  (x.audience shard).foldl (fun x session => (x.sendTo session frame).2) x

/-- Publishes one event. -/
def publish (x : Exchange) (event : BrokerEvent) : Option Exchange :=
  match x.services.publishing with
  | .broker broker =>
    match broker.publish event with
    | some broker => some { x with services.publishing := .broker broker }
    | none => none
  | _ => none

/-- Publishes all of some events, if they are taken. -/
def publishAll (x : Exchange) : List BrokerEvent → Option Exchange
  | [] => some x
  | event :: events =>
    match x.publish event with
    | some x => x.publishAll events
    | none => none

/-- Hands a frame to the shard of its target. -/
def handOver (x : Exchange) (owner : Nat) (target : String) (frame : Bytes) :
    Except Fault Unit × Exchange :=
  match x.shard? owner with
  | none => (.error (.state s!"shard {owner} is shut down"), x)
  | some s =>
    match s.forward.offer { target, frame } with
    | .ok forward => (.ok (), x.mapShard owner fun s => { s with forward })
    | .error .full => (.error (.queueFull "forward"), x)
    | .error .closed => (.error (.state s!"shard {owner} is shut down"), x)

/-! ## Into the work queue -/

def countDropped (x : Exchange) (shard : Nat) : Exchange :=
  x.mapCounters shard fun c => { c with dropped := c.dropped + 1 }

/-- Queues a task at a shard. -/
def submit (x : Exchange) (shard : Nat) (task : Task) : Except Fault Unit × Exchange :=
  match x.shard? shard with
  | none => (.error (.state s!"shard {shard} is shut down"), x)
  | some s =>
    match s.work.offer task with
    | .ok work => (.ok (), x.mapShard shard fun s => { s with work })
    | .error .full => (.error (.queueFull "work"), x.countDropped shard)
    | .error .closed => (.error (.state s!"shard {shard} is shut down"), x)

/-- Queues a message that came in at a shard. -/
def enqueueEnvelope (x : Exchange) (shard : Nat) (envelope : Envelope) (raw : Bytes) :
    Except Fault Unit × Exchange :=
  x.submit shard { envelope, raw, origin := .inbound }

/-- Queues a frame at a shard, meant for one identity if it came from another shard. -/
def enqueue (x : Exchange) (shard : Nat) (raw : Bytes) (target : Option String) :
    Except Fault Unit × Exchange :=
  match Envelope.decode raw with
  | .error fault => (.error (.envelope (.ofBinary fault)), x.countDropped shard)
  | .ok envelope =>
    let origin := match target with
      | some target => Origin.forwarded target
      | none => .inbound
    x.submit shard { envelope, raw, origin }

/-- Queues a frame at the connection that holds an identity on a shard, past the routing. Tells
whether there is one. -/
def deliverFrameAt (x : Exchange) (shard : Nat) (identity : String) (frame : Bytes) :
    Except Fault Bool × Exchange :=
  match x.holder? shard identity with
  | none => (.ok false, x)
  | some session =>
    match x.sendTo session frame with
    | (.ok (), x) => (.ok true, x.mapCounters shard fun c => { c with delivered := c.delivered + 1 })
    | (.error fault, x) => (.error fault, x.countDropped shard)

/-- Queues a frame at the connection of an identity, wherever it is. -/
def deliverFrame (x : Exchange) (identity : String) (frame : Bytes) :
    Except Fault Bool × Exchange :=
  match x.pool.index.get? identity with
  | some shard => x.deliverFrameAt shard identity frame
  | none => (.ok false, x)

end Exchange

namespace Routing

/-! ## Parts -/

/-- The exchange as it is now. -/
def exchange : Routing Exchange := do return (← get).exchange

/-- Changes the exchange. -/
def change (f : Exchange → Exchange) : Routing Unit :=
  modify fun s => { s with exchange := f s.exchange }

/-- Does a step of the exchange that may fail. -/
def step {ε α : Type} (wrap : ε → Stop) (f : Exchange → Except ε α × Exchange) : Routing α := do
  let s ← get
  let (result, x) := f s.exchange
  set { s with exchange := x }
  match result with
  | .ok a => return a
  | .error e => throw (wrap e)

/-- Calls a service. -/
def call (c : ServiceCall) : Routing Unit := step id (·.attempt c)

/-- An identity for a message that has none. -/
def freshId : Routing String := do
  let s ← get
  let (id, x) := s.exchange.freshId
  set { s with exchange := x }
  return id

/-- Goes on when a part fails, but not when it breaks off. -/
def attempt (part : Routing Unit) : Routing Unit :=
  tryCatch part fun
    | .fault _ => pure ()
    | .crash => throw .crash

/-- Gives an envelope to the assembler of a shard. -/
def assemble (shard : Nat) (e : Envelope) : Routing Outcome := do
  modify fun s => { s with given := s.given ++ [e] }
  step (.fault ∘ .fragment) fun x =>
    match x.shard? shard with
    | none => (.error .missingMessageId, x)
    | some s =>
      let (result, assembler) := s.assembler.receive x.now e
      (result, x.mapShard shard fun s => { s with assembler })

/-- The message that a target gets who is away, if it is complete. -/
def resolve (shard : Nat) (e : Envelope) : Routing (Option Envelope) := do
  if !e.isFragment then return some e
  match (← get).copy with
  | .whole message => return some message
  | .waiting => return none
  | .unresolved =>
    -- the next target finds the fragment taken in, and does not take it in again
    modify fun s => { s with copy := .waiting }
    match ← assemble shard e with
    | .complete message =>
      modify fun s => { s with copy := .whole message }
      return some message
    | .pending _ _ => return none

/-- Keeps a message for a target that is away. Call signals mean nothing to it later. -/
def store (shard : Nat) (e : Envelope) (target : String) : Routing Unit := do
  match ← resolve shard e with
  | none => return
  | some message =>
    -- a call is over by the time its target is back
    if message.contentKind.isCallSignal then return
    let id ← if message.messageId = "" then freshId else pure message.messageId
    call .persist
    change fun x =>
      let x := { x with
        services.offline := x.services.offline.persist id message.sender target message.content
          x.now }
      x.mapCounters shard fun c => { c with persisted := c.persisted + 1 }

/-- Queues frames at a connection, up to the first that it does not take. -/
def sendAll (shard : Nat) (session : Session) : List Bytes → Routing Unit
  | [] => return
  | frame :: frames => do
    let s ← get
    match s.exchange.sendTo session frame with
    | (.ok (), x) =>
      set { s with exchange := x }
      sendAll shard session frames
    | (.error fault, x) =>
      set { s with exchange := x.countDropped shard }
      throw (.fault fault)

/-- Writes the frames of one message to a connection. -/
def write (shard : Nat) (session : Session) (frames : List Bytes) : Routing Unit := do
  sendAll shard session frames
  change (·.mapCounters shard fun c => { c with delivered := c.delivered + 1 })

/-- Whether events were published: all of them, or none. -/
def published (events : List BrokerEvent) : Routing Bool := do
  let s ← get
  match s.exchange.publishAll events with
  | some x =>
    set { s with exchange := x }
    return true
  | none => return false

/-- Hands frames to the shard of their target, up to the first that it does not take. -/
def forward (owner : Nat) (target : String) : List Bytes → Routing Unit
  | [] => return
  | frame :: frames => do
    step .fault (·.handOver owner target frame)
    forward owner target frames

/-- Whether a target is online. -/
def isOnline (target : String) : Routing Bool := do
  call .isOnline
  return (← exchange).services.presence.isOnline target

/-- The frames a message goes out in. -/
def outboundFrames (shard : Nat) (e : Envelope) (raw : Bytes) : Routing (List Bytes) := do
  let x ← exchange
  match x.shard? shard with
  | none => return [raw]
  | some s =>
    -- what is a fragment already is never split again
    if e.isFragment || !e.isOversized s.assembler.limits then return [raw]
    let fresh ← if e.messageId = "" then freshId else pure ""
    match e.split s.assembler.limits fresh x.timestamp with
    | .ok fragments => return fragments.map Envelope.encode
    | .error fault => throw (.fault (.fragment fault))

/-! ## Targets -/

/-- Brings a message to a connection of the shard. -/
def deliverHere (shard : Nat) (session : Session) (target : String) (frames : List Bytes) :
    Routing Unit := do
  if ← published (frames.map (.direct target)) then return
  write shard session frames

/-- Brings a message to one target. -/
def deliver (shard : Nat) (e : Envelope) (target : String) (frames : List Bytes) :
    Routing Unit := do
  if ← isOnline target then
    match (← exchange).whereabouts shard target with
    | .here session => deliverHere shard session target frames
    | .elsewhere owner => forward owner target frames
    | .nowhere => store shard e target
  else store shard e target

/-- After a message was published to a group: members without a connection get it later. -/
def settle (shard : Nat) (e : Envelope) (target : String) : Routing Unit := do
  if (← isOnline target) && (← exchange).isConnected shard target then return
  store shard e target

/-- Does the same for each of some targets, whatever becomes of the others. -/
def forEach (part : String → Routing Unit) : List String → Routing Unit
  | [] => return
  | target :: targets => do
    attempt (part target)
    forEach part targets

/-! ## Kinds of tasks -/

/-- A frame that another shard handed over for a target. -/
def routeForwarded (shard : Nat) (target : String) (e : Envelope) (raw : Bytes) :
    Routing Unit := do
  match (← exchange).holder? shard target with
  | some session => write shard session [raw]
  | none =>
    -- it has moved on since the frame was handed over, and the frame is given up
    if ← isOnline target then change (·.countDropped shard)
    else store shard e target

/-- A message for the assistant: its answer comes later. -/
def routeToAssistant (shard : Nat) (e : Envelope) : Routing Unit := do
  let ask (message : Envelope) : Routing Unit :=
    change (·.mapPool fun p => { p with prompts := p.prompts ++ [{ shard, message }] })
  if e.isFragment then
    match ← assemble shard e with
    | .complete message => ask message
    | .pending _ _ => return
  else ask e

/-- A message for one identity. -/
def routeDirect (shard : Nat) (e : Envelope) (raw : Bytes) : Routing Unit := do
  if (← exchange).services.isAssistant e.recipient then routeToAssistant shard e
  else
    let frames ← outboundFrames shard e raw
    deliver shard e e.recipient frames

/-- A message for the members of a group. -/
def routeGroup (shard : Nat) (e : Envelope) (raw : Bytes) : Routing Unit := do
  call .membersOf
  let members := (← exchange).services.groups.membersOf e.recipient
  if members.isEmpty then return
  let frames ← outboundFrames shard e raw
  -- the sender need not be a member itself
  let others := members.filter (· ≠ e.sender)
  if ← published (frames.map (.group e.recipient e.sender)) then
    forEach (settle shard e) others
  else
    forEach (fun target => deliver shard e target frames) others

/-- Any task. -/
def route (shard : Nat) (task : Task) : Routing Unit :=
  match task.origin with
  | .forwarded target => routeForwarded shard target task.envelope task.raw
  | .inbound =>
    -- a notice has no recipient: it goes to everybody
    if task.envelope.isNotice then change (·.broadcast shard task.raw)
    else
      match task.envelope.deliveryKind with
      | .direct => routeDirect shard task.envelope task.raw
      | .group => routeGroup shard task.envelope task.raw

end Routing

namespace Exchange

/-- Routes a task at a shard, from beginning to end. One that breaks off is a fault of the shard, and
nothing more. -/
def routeTask (x : Exchange) (shard : Nat) (task : Task) : Exchange :=
  match (Routing.route shard task).run.run { exchange := x, copy := .unresolved } with
  | (.error .crash, s) =>
    s.exchange.mapCounters shard fun c => { c with faults := c.faults + 1 }
  | (_, s) => s.exchange

end Exchange

end Switchboard
