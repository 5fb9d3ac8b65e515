import Switchboard.Exchange.Monitor

/-!
# Shards that outlive their pool

When a pool is given up while connections still hold on to its shards, the shards go on without it:
they cannot look identities up any more, and know only the connections they own. But a consumer
keeps its pool, and then the shards still reach it. A fresh pool takes the place of the old one.
Connections, services and clocks are shared.
-/

namespace Switchboard

structure Site where
  exchange : Exchange
  /-- The pool that was given up, with the shards that live on. -/
  orphans : Option Pool

/-- A pool that was given up: only a consumer still holds it. -/
def Pool.abandoned (p : Pool) : Pool := { p with isReachable := p.consumer.isSome }

namespace Site

/-- Does something with the shards that live on, or with the pool if it was never given up. -/
def onOrphans {α : Type} (s : Site) (f : Exchange → α × Exchange) : α × Site :=
  match s.orphans with
  | none =>
    let (a, exchange) := f s.exchange
    (a, { s with exchange })
  | some pool =>
    let (a, x) := f { s.exchange with pool }
    (a, { exchange := { x with pool := s.exchange.pool }, orphans := some x.pool.abandoned })

/-- Does something with the pool. -/
def onPool {α : Type} (s : Site) (f : Exchange → α × Exchange) : α × Site :=
  let (a, exchange) := f s.exchange
  (a, { s with exchange })

/-- Does something with the shards that live on, or with the pool. -/
def on {α : Type} (s : Site) (amongOrphans : Bool) (f : Exchange → α × Exchange) : α × Site :=
  if amongOrphans then s.onOrphans f else s.onPool f

/-- The exchange as its oldest shards see it. -/
def elders (s : Site) : Exchange :=
  match s.orphans with
  | none => s.exchange
  | some pool => { s.exchange with pool }

/-- Gives the pool up. -/
def replacePool (s : Site) : Site :=
  { exchange := s.exchange.mapPool fun _ => .new s.exchange.config s.exchange.ticks
    orphans := some s.exchange.pool.abandoned }

/-- Does everything that is to be done. -/
def settle (s : Site) : Site :=
  let s := { s with exchange := s.exchange.settle }
  match s.orphans with
  | none => s
  | some _ => (s.onOrphans fun x => ((), x.settle)).2

/-- Lets time pass on the clock of the timers. -/
def advance (s : Site) (duration : Nat) : Site :=
  let start := s.exchange.ticks
  let s :=
    match s.orphans with
    | none => s
    | some _ => (s.onOrphans fun x => ((), { x.advance duration with ticks := start })).2
  { s with exchange := s.exchange.advance duration }

end Site

end Switchboard
