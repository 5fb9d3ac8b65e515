import Switchboard.Config.Basic
import Switchboard.Json.Value

/-!
# A configuration as JSON

Every section with every setting, under the names that the file uses.
-/

namespace Switchboard

open Json (Value)

/-- A configuration as it is shown. -/
def Config.toJson (c : Config) : Value :=
  .object
    [("server", .object [("bind_addr", .text c.server.bindAddress)]),
     ("pool", .object
       [("initial_shards", .count c.pool.initialShards), ("max_shards", .count c.pool.maxShards),
        ("load_threshold", .count c.pool.loadThreshold),
        ("reject_when_saturated", .flag c.pool.rejectWhenSaturated)]),
     ("shard", .object
       [("work_queue_capacity", .count c.shard.workQueueCapacity),
        ("forward_queue_capacity", .count c.shard.forwardQueueCapacity),
        ("processors", .count c.shard.processors)]),
     ("connection", .object
       [("outbound_capacity", .count c.connection.outboundCapacity),
        ("heartbeat_interval_secs", .count c.connection.heartbeatInterval),
        ("heartbeat_timeout_secs", .count c.connection.heartbeatTimeout),
        ("max_frame_bytes", .count c.connection.maxFrameSize)]),
     ("fragment", .object
       [("max_fragment_size", .count c.fragment.maxFragmentSize),
        ("max_fragments", .count c.fragment.maxFragments.toNat),
        ("assembly_timeout_secs", .count c.fragment.assemblyTimeout),
        ("sweep_interval_secs", .count c.fragment.sweepInterval)]),
     ("broker", .object
       [("enabled", .flag c.broker.enabled), ("capacity", .count c.broker.capacity)]),
     ("assistant", .object
       [("identity", .text c.assistant.identity), ("base_url", .text c.assistant.baseUrl),
        ("model", .text c.assistant.model), ("api_key", .ofText? c.assistant.apiKey),
        ("request_timeout_secs", .count c.assistant.requestTimeout)]),
     ("database", .object [("url", .ofText? c.database.url)])]

/-- The durations in milliseconds by which the exchange goes, under the names of their settings. -/
def Config.durations (c : Config) : List (String × Nat) :=
  [("request_timeout", milliseconds c.assistant.requestTimeout),
   ("heartbeat_interval", milliseconds c.connection.heartbeatInterval),
   ("heartbeat_timeout", milliseconds c.connection.heartbeatTimeout),
   ("assembly_timeout", milliseconds c.fragment.assemblyTimeout),
   ("sweep_interval", milliseconds c.fragment.sweepInterval)]

end Switchboard
