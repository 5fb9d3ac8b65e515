import Switchboard.Exchange.Action

/-!
# A schedule

Any order of actions is possible; this is one of them. The exchange does everything that is to be
done, round after round, until nothing is left, and only then does time pass. In a round each kind
of task is served in turn until it waits: readers, writers, the ends of sessions, processors,
coordinators, the assistant, the consumer.
-/

namespace Switchboard

/-- The number of things that a subscriber can read now. -/
def Broker.backlog (b : Broker) (subscriber : Nat) : Nat :=
  match b.subscribers.get? subscriber with
  | none => 0
  | some next =>
    let oldest := b.sent.length - b.capacity
    if next < oldest then b.sent.length - oldest + 1 else b.sent.length - next

namespace Exchange

/-! ## What is to be done -/

/-- What the sessions have to do, by a number of steps for each. -/
def forSessions (x : Exchange) (action : Session → Action)
    (steps : Socket → Connection → Nat) : List Action :=
  x.pool.sockets.entries.flatMap fun (session, s) =>
    match x.connection? session with
    | some c => List.replicate (steps s c) (action session)
    | none => []

def reading (x : Exchange) : List Action :=
  x.forSessions .read fun s c =>
    if !s.isReading then 0 else if c.isCancelled then 1 else s.incoming.length

def writing (x : Exchange) : List Action :=
  x.forSessions .write fun s c =>
    if !s.isWriting then 0 else if c.isCancelled then 1 else c.outbound.depth

def concluding (x : Exchange) : List Action :=
  x.forSessions .conclude fun s _ => if Socket.isOver s then 1 else 0

def processing (x : Exchange) : List Action :=
  x.pool.shards.flatMap fun s =>
    List.replicate s.inHand.length (.finish s.id 0)
      ++ (List.replicate s.work.depth [.take s.id, .finish s.id 0]).flatten

def coordinating (x : Exchange) : List Action :=
  x.pool.shards.flatMap fun s => List.replicate s.forward.depth (.relay s.id)

def answering (x : Exchange) : List Action := List.replicate x.pool.prompts.length .answer

def consuming (x : Exchange) : List Action :=
  match x.pool.consumer, x.services.publishing with
  | some subscriber, .broker broker => List.replicate (broker.backlog subscriber) .consume
  | _, _ => []

/-- The kinds of tasks, in the order in which they are served. -/
def turns : List (Exchange → List Action) :=
  [reading, writing, concluding, processing, coordinating, answering, consuming]

/-- Whether everything waits. -/
def isQuiet (x : Exchange) : Bool := turns.all fun turn => (turn x).isEmpty

/-! ## Doing it -/

/-- Serves every kind of task once. -/
def round (x : Exchange) : Exchange := turns.foldl (fun x turn => x.run (turn x)) x

/-- Does rounds until everything waits, but at most so many. -/
def settleWithin : (rounds : Nat) → Exchange → Exchange
  | 0, x => x
  | rounds + 1, x => if x.isQuiet then x else settleWithin rounds x.round

/-- The number of rounds after which an exchange is left alone: only an assistant that talks to
itself needs more than a few. -/
def patience : Nat := 64

/-- Does everything that is to be done. -/
def settle (x : Exchange) : Exchange := settleWithin patience x

/-! ## Time -/

/-- Lets time pass on the clock on the wall. -/
def wait (x : Exchange) (duration : Nat) : Exchange := { x with now := x.now + duration }

/-- The timers that are set, with the actions they cause. -/
def timers (x : Exchange) : List (Moment × Action) :=
  (x.pool.sockets.entries.filterMap fun (session, s) =>
      if s.isWriting then some (s.nextPing, .ping session) else none)
    ++ x.pool.shards.filterMap fun s =>
      if s.forward.isClosed then none else some (s.nextSweep, .sweep s.id)

/-- The earliest of some timers, the first of several. -/
def earliest : List (Moment × Action) → Option (Moment × Action)
  | [] => none
  | timer :: timers =>
    match earliest timers with
    | some other => if other.1 < timer.1 then some other else some timer
    | none => some timer

/-- Lets the timers go off that are set before a time, one after another, but at most so many. -/
def elapse (target : Moment) : (firings : Nat) → Exchange → Exchange
  | 0, x => { x with ticks := target }
  | firings + 1, x =>
    match earliest x.timers with
    | some (time, action) =>
      if time ≤ target then
        elapse target firings ({ x with ticks := max x.ticks time }.act action).settle
      else { x with ticks := target }
    | none => { x with ticks := target }

/-- Lets time pass on the clock of the timers. A timer goes off once in a millisecond at most. -/
def advance (x : Exchange) (duration : Nat) : Exchange :=
  elapse (x.ticks + duration) ((duration + 1) * x.timers.length) x

/-- Stops every shard, and the consumer with them. -/
def shutDown (x : Exchange) : Exchange :=
  (x.mapPool fun p => { p with shards := p.shards.map Shard.stop, isShutDown := true }).stopConsumer

end Exchange

end Switchboard
