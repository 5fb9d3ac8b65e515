import Switchboard.Exchange.Session

/-!
# What happens in the exchange

Besides the steps of sessions these are: a processor of a shard takes a task, and routes it; the
coordinator of a shard queues a frame that was handed over, and looks for forgotten fragments; the
assistant answers a prompt; and the consumer writes a published frame. Each is one `Action`, and
`act` is what it does. Actions that have nothing to do change nothing, so any list of actions is a
possible history.

Taking a task and routing it are apart, and any task in hand may be routed next: that is how tasks
overtake each other at a shard with several processors. Routing it is one action however many targets
it has; what is said at `Exchange.routeTask` is why no history is missed by that.
-/

namespace Switchboard

/-- One thing that happens by itself. -/
inductive Action
  /-- A processor of a shard takes the oldest task, if there is a processor free. -/
  | take (shard : Nat)
  /-- A processor of a shard routes the task that it took, the one of a number. -/
  | finish (shard slot : Nat)
  /-- The coordinator of a shard queues the oldest frame that was handed over. -/
  | relay (shard : Nat)
  /-- The coordinator of a shard looks for forgotten fragments. -/
  | sweep (shard : Nat)
  /-- The assistant answers the oldest prompt. -/
  | answer
  /-- The consumer takes the oldest published event. -/
  | consume
  | read (session : Session)
  | write (session : Session)
  | ping (session : Session)
  | conclude (session : Session)
  deriving DecidableEq, Repr

namespace Exchange

/-- The number of processors of a shard: there is always one. -/
def processors (x : Exchange) : Nat := max 1 x.config.shard.processors

def take (x : Exchange) (shard : Nat) : Exchange :=
  match x.shard? shard with
  | none => x
  | some s =>
    if s.inHand.length < x.processors then
      match s.work.take? with
      | some (task, work) =>
        x.mapShard shard fun s => { s with work, inHand := s.inHand ++ [task] }
      | none => x
    else x

def finish (x : Exchange) (shard slot : Nat) : Exchange :=
  match x.shard? shard with
  | none => x
  | some s =>
    match s.inHand[slot]? with
    | some task =>
      (x.mapShard shard fun s => { s with inHand := s.inHand.eraseIdx slot }).routeTask shard task
    | none => x

def relay (x : Exchange) (shard : Nat) : Exchange :=
  match x.shard? shard with
  | none => x
  | some s =>
    match s.forward.take? with
    | some (handover, forward) =>
      let x := x.mapShard shard fun s => { s with forward }
      -- counted before it is known whether the work queue takes it
      let x := x.mapCounters shard fun c => { c with forwarded := c.forwarded + 1 }
      (x.enqueue shard handover.frame (some handover.target)).2
    | none => x

def sweep (x : Exchange) (shard : Nat) : Exchange :=
  x.mapShard shard fun s =>
    { s with
      assembler := (s.assembler.sweep x.now).2
      nextSweep := x.ticks + Shard.sweepPeriod x.config }

/-- The answer to a prompt, on its way back to whoever asked. -/
def reply (x : Exchange) (shard : Nat) (assistant recipient text : String) : Exchange :=
  let (messageId, x) := x.freshId
  let e := { Envelope.direct assistant recipient .text text x.timestamp with messageId }
  (x.enqueueEnvelope shard e e.encode).2

def answer (x : Exchange) : Exchange :=
  match x.pool.prompts with
  | [] => x
  | prompt :: prompts =>
    -- the prompt is gone whether it is answered or not
    let x := x.mapPool fun p => { p with prompts }
    match x.services.assistant, x.attempt .complete with
    | some assistant, (.ok (), x) =>
      match assistant.answer prompt.message.content with
      | .ok text => x.reply prompt.shard assistant.identity prompt.message.sender text
      | .error _ => x
    | _, (_, x) => x

/-- Writes a published frame to the connections it is for. -/
def deliverPublished (x : Exchange) (frame : Bytes) : List String → Exchange
  | [] => x
  | target :: targets => (x.deliverFrame target frame).2.deliverPublished frame targets

/-- The consumer is gone, and does not listen any more. -/
def stopConsumer (x : Exchange) : Exchange :=
  match x.pool.consumer, x.services.publishing with
  | some subscriber, .broker broker =>
    { x with
      pool.consumer := none
      services.publishing := .broker (broker.unsubscribe subscriber) }
  | _, _ => { x with pool.consumer := none }

/-- What the consumer does with an event. -/
def handlePublished (x : Exchange) : BrokerEvent → Exchange
  | .direct target frame => x.deliverPublished frame [target]
  | .group group sender frame =>
    match x.attempt .membersOf with
    | (.ok (), x) =>
      x.deliverPublished frame ((x.services.groups.membersOf group).filter (· ≠ sender))
    | (.error (.fault _), x) => x
    | (.error .crash, x) => x.stopConsumer
  | .presence _ => x

def consume (x : Exchange) : Exchange :=
  match x.pool.consumer, x.services.publishing with
  | some subscriber, .broker broker =>
    let (reading, broker) := broker.read subscriber
    let x := { x with services.publishing := .broker broker }
    match reading with
    | .event event => x.handlePublished event
    | _ => x
  | _, _ => x

/-- What an action does. -/
def act (x : Exchange) : Action → Exchange
  | .take shard => x.take shard
  | .finish shard slot => x.finish shard slot
  | .relay shard => x.relay shard
  | .sweep shard => x.sweep shard
  | .answer => x.answer
  | .consume => x.consume
  | .read session => x.read session
  | .write session => x.write session
  | .ping session => x.ping session
  | .conclude session => x.conclude session

/-- What a history does. -/
def run (x : Exchange) (history : List Action) : Exchange := history.foldl act x

end Exchange

end Switchboard
