import Switchboard.Exchange.Monitor
import Switchboard.Json.Value

/-!
# Answers

What the exchange answers over the web, and the JSON of everything that is shown there. A fault is
answered with its status and its text; requests that are malformed get a bare status.
-/

namespace Switchboard

open Json (Value)

/-- A message that was kept, as it is shown. -/
def StoredMessage.toJson (m : StoredMessage) : Value :=
  .object
    [("message_id", .text m.messageId), ("sender_id", .text m.sender),
     ("target_id", .text m.target), ("content", .text m.content),
     ("status", .text (if m.isRead then "read" else "unread")),
     ("created_at", .text (Time.render m.createdAt))]

def PresenceEvent.toJson (e : PresenceEvent) : Value :=
  .object
    [("kind", .text e.kind.name), ("identity", .text e.identity),
     ("metadata", .object (e.metadata.map fun (key, value) => (key, .text value))),
     ("timestamp", .text (Time.render e.timestamp))]

def ClientInfo.toJson (c : ClientInfo) : Value :=
  .object
    [("identity", .text c.identity), ("remote_addr", .ofText? (c.remoteAddress.map (·.render))),
     ("connected_at", .text (Time.render c.connectedAt)),
     ("last_heartbeat", .text (Time.render c.lastHeartbeat)),
     ("shard_id", .count c.shardNumber)]

def ShardStats.toJson (s : ShardStats) : Value :=
  .object
    [("id", .count s.id), ("load", .count s.load), ("connections", .count s.connections),
     ("pending_fragments", .count s.pendingFragments),
     ("work_queue_depth", .count s.workDepth), ("forward_queue_depth", .count s.forwardDepth),
     ("forwarded", .count s.counters.forwarded), ("delivered", .count s.counters.delivered),
     ("dropped", .count s.counters.dropped), ("persisted", .count s.counters.persisted),
     ("faults", .count s.counters.faults)]

def PoolStats.toJson (s : PoolStats) : Value :=
  .object
    [("total_shards", .count s.totalShards), ("max_shards", .count s.maxShards),
     ("load_threshold", .count s.loadThreshold),
     ("tracked_identities", .count s.trackedIdentities),
     ("shards", .list (s.shards.map ShardStats.toJson))]

/-- How a fault is told to whoever made the request. -/
def Fault.toJson (f : Fault) : Value :=
  .object [("error", .text f.text), ("status", .count f.status)]

namespace Web

/-- What an answer carries. -/
inductive Body
  | nothing
  | text (text : String)
  | json (value : Value)
  /-- JSON is announced and not sent. -/
  | jsonUnsent

/-- What is left of a body when only the head of its answer is sent. -/
def Body.unsent : Body → Body
  | json _ | jsonUnsent => jsonUnsent
  | nothing | text _ => nothing

structure Answer where
  status : Nat
  body : Body

namespace Answer

def json (value : Value) : Answer := { status := 200, body := .json value }

def text (status : Nat) (text : String) : Answer := { status, body := .text text }

/-- The answer to a request that is malformed. -/
def bare (status : Nat) : Answer := { status, body := .nothing }

def ofFault (f : Fault) : Answer := { status := f.status, body := .json f.toJson }

/-- The answer without what it carries. -/
def head (a : Answer) : Answer := { a with body := a.body.unsent }

/-- The answer to a request whose service failed. -/
def ofStop : Stop → Answer
  | .fault f => ofFault f
  | .crash => bare 500

end Answer

end Web

end Switchboard
