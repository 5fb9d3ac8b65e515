import Switchboard.Exchange.Schedule

/-!
# What can be seen of the exchange

The figures of the pool and of every shard, and who is connected.
-/

namespace Switchboard

/-- The figures of a shard. -/
structure ShardStats where
  id : Nat
  load : Nat
  connections : Nat
  pendingFragments : Nat
  workDepth : Nat
  forwardDepth : Nat
  counters : Counters
  deriving DecidableEq, Repr

/-- The figures of a pool. -/
structure PoolStats where
  totalShards : Nat
  maxShards : Nat
  loadThreshold : Nat
  trackedIdentities : Nat
  shards : List ShardStats
  deriving DecidableEq, Repr

/-- What is known of a connected client. -/
structure ClientInfo where
  identity : String
  remoteAddress : Option SocketAddress
  connectedAt : Moment
  lastHeartbeat : Moment
  shardNumber : Nat
  deriving DecidableEq, Repr

def Shard.stats (s : Shard) : ShardStats :=
  { id := s.id, load := s.load, connections := s.registry.size
    pendingFragments := s.assembler.pendingCount
    workDepth := s.work.depth, forwardDepth := s.forward.depth, counters := s.counters }

def Connection.info (c : Connection) : ClientInfo :=
  { identity := c.identity, remoteAddress := c.remoteAddress, connectedAt := c.connectedAt
    lastHeartbeat := c.lastHeartbeat, shardNumber := c.shardNumber }

namespace Exchange

def stats (x : Exchange) : PoolStats :=
  { totalShards := x.pool.shards.length
    maxShards := x.config.pool.maxShards
    loadThreshold := x.config.pool.loadThreshold
    trackedIdentities := x.pool.index.size
    shards := x.pool.shards.map Shard.stats }

/-- Whoever is connected, in the order of the identities. -/
def clients (x : Exchange) : List ClientInfo :=
  let infos := x.pool.sessions.filterMap fun session => (x.connection? session).map Connection.info
  infos.mergeSort fun a b => !(b.identity < a.identity)

/-- The shard that an identity points at. -/
def locate (x : Exchange) (identity : String) : Option Nat := x.pool.index.get? identity

end Exchange

end Switchboard
