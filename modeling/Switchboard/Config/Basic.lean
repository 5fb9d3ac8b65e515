import Switchboard.Fault

/-!
# Settings

A configuration has a section for every part of the exchange, and every setting has a default.
`Config.check` names the first setting that the exchange cannot run with; durations are given in
seconds and used in milliseconds.
-/

namespace Switchboard

structure ServerSettings where
  /-- The listen address, host and port. -/
  bindAddress : String := "0.0.0.0:3000"
  deriving DecidableEq, Repr

/-- Placement and growth of the shards. -/
structure PoolSettings where
  initialShards : Nat := 4
  maxShards : Nat := 8
  /-- The load from which on a shard is saturated. -/
  loadThreshold : Nat := 150
  /-- Whether a client is refused when every shard is saturated. -/
  rejectWhenSaturated : Bool := false
  deriving DecidableEq, Repr

structure ShardSettings where
  workQueueCapacity : Nat := 100
  forwardQueueCapacity : Nat := 100
  /-- How many tasks of a shard may be in hand at once. -/
  processors : Nat := 3
  deriving DecidableEq, Repr

structure ConnectionSettings where
  outboundCapacity : Nat := 256
  heartbeatInterval : Nat := 30
  heartbeatTimeout : Nat := 90
  maxFrameSize : Nat := 16777216
  deriving DecidableEq, Repr

structure FragmentSettings where
  /-- The greatest length of an envelope that goes out in one frame. -/
  maxFragmentSize : Nat := 65536
  maxFragments : UInt32 := 1000
  assemblyTimeout : Nat := 30
  sweepInterval : Nat := 60
  deriving DecidableEq, Repr

structure BrokerSettings where
  enabled : Bool := false
  capacity : Nat := 1024
  deriving DecidableEq, Repr

structure AssistantSettings where
  /-- The identity that prompts are sent to. -/
  identity : String := "assistant"
  baseUrl : String := "https://api.deepseek.com"
  model : String := "deepseek-chat"
  /-- Without a key there is no assistant. -/
  apiKey : Option String := none
  requestTimeout : Nat := 60
  deriving DecidableEq, Repr

structure DatabaseSettings where
  /-- Without a database everything is kept in memory. -/
  url : Option String := none
  deriving DecidableEq, Repr

structure Config where
  server : ServerSettings := {}
  pool : PoolSettings := {}
  shard : ShardSettings := {}
  connection : ConnectionSettings := {}
  fragment : FragmentSettings := {}
  broker : BrokerSettings := {}
  assistant : AssistantSettings := {}
  database : DatabaseSettings := {}
  deriving DecidableEq, Repr

/-- The milliseconds of a duration in seconds. -/
def milliseconds (seconds : Nat) : Nat := seconds * 1000

/-- When a connection is asked for a sign of life, and after which silence it is given up, in
milliseconds. -/
structure Keepalive where
  interval : Nat
  timeout : Nat
  deriving DecidableEq, Repr

/-- The shortest time between two questions for a sign of life, in milliseconds. -/
def Keepalive.shortest : Nat := 10

def ConnectionSettings.keepalive (s : ConnectionSettings) : Keepalive :=
  { interval := max (milliseconds s.heartbeatInterval) Keepalive.shortest
    timeout := milliseconds s.heartbeatTimeout }

def FragmentSettings.limits (s : FragmentSettings) : FragmentLimits :=
  .make s.maxFragmentSize s.maxFragments (milliseconds s.assemblyTimeout)

/-- Whether prompts are answered. -/
def AssistantSettings.isEnabled (s : AssistantSettings) : Bool :=
  match s.apiKey with
  | some key => key ≠ ""
  | none => false

namespace Config

/-- The settings that must not be zero, after those of the pool. -/
def positives (c : Config) : List (String × Nat) :=
  [("shard.work_queue_capacity", c.shard.workQueueCapacity),
   ("shard.forward_queue_capacity", c.shard.forwardQueueCapacity),
   ("shard.processors", c.shard.processors),
   ("connection.outbound_capacity", c.connection.outboundCapacity),
   ("fragment.max_fragment_size", c.fragment.maxFragmentSize),
   ("broker.capacity", c.broker.capacity),
   ("fragment.max_fragments", c.fragment.maxFragments.toNat),
   ("connection.heartbeat_interval_secs", c.connection.heartbeatInterval),
   ("fragment.sweep_interval_secs", c.fragment.sweepInterval)]

/-- The first fault of the pool's settings. -/
def checkPool (s : PoolSettings) : Except ConfigFault Unit :=
  if s.initialShards = 0 then .error (.invalidValue "pool.initial_shards" "must be at least 1")
  else if s.maxShards < s.initialShards then
    .error (.invalidValue "pool.max_shards"
      s!"{s.maxShards} is below initial_shards {s.initialShards}")
  else if s.loadThreshold = 0 then
    .error (.invalidValue "pool.load_threshold" "must be at least 1")
  else .ok ()

/-- The first of some settings that is zero. -/
def checkPositive : List (String × Nat) → Except ConfigFault Unit
  | [] => .ok ()
  | (field, value) :: rest =>
    if value = 0 then .error (.invalidValue field "must be greater than zero")
    else checkPositive rest

/-- The first setting that the exchange cannot run with. -/
def check (c : Config) : Except ConfigFault Unit :=
  match checkPool c.pool with
  | .error fault => .error fault
  | .ok () =>
    match checkPositive c.positives with
    | .error fault => .error fault
    | .ok () =>
      if c.connection.heartbeatTimeout ≤ c.connection.heartbeatInterval then
        .error (.invalidValue "connection.heartbeat_timeout_secs"
          "must exceed heartbeat_interval_secs")
      else if c.assistant.identity = "" then
        .error (.invalidValue "assistant.identity" "must not be empty")
      else .ok ()

/-- A configuration that the exchange can run with. -/
def checked (c : Config) : Except ConfigFault Config :=
  match c.check with
  | .ok () => .ok c
  | .error fault => .error fault

/-! ## Settings put in one by one -/

def withBindAddress (address : String) (c : Config) : Config :=
  { c with server.bindAddress := address }

def withShards (initial max : Nat) (c : Config) : Config :=
  { c with pool.initialShards := initial, pool.maxShards := max }

def withLoadThreshold (threshold : Nat) (c : Config) : Config :=
  { c with pool.loadThreshold := threshold }

def withRejection (reject : Bool) (c : Config) : Config :=
  { c with pool.rejectWhenSaturated := reject }

def withWorkQueueCapacity (capacity : Nat) (c : Config) : Config :=
  { c with shard.workQueueCapacity := capacity }

def withForwardQueueCapacity (capacity : Nat) (c : Config) : Config :=
  { c with shard.forwardQueueCapacity := capacity }

def withProcessors (processors : Nat) (c : Config) : Config :=
  { c with shard.processors := processors }

def withOutboundCapacity (capacity : Nat) (c : Config) : Config :=
  { c with connection.outboundCapacity := capacity }

def withHeartbeat (interval timeout : Nat) (c : Config) : Config :=
  { c with connection.heartbeatInterval := interval, connection.heartbeatTimeout := timeout }

def withMaxFragmentSize (size : Nat) (c : Config) : Config :=
  { c with fragment.maxFragmentSize := size }

def withMaxFragments (cap : UInt32) (c : Config) : Config :=
  { c with fragment.maxFragments := cap }

def withBroker (enabled : Bool) (c : Config) : Config := { c with broker.enabled := enabled }

def withAssistant (baseUrl apiKey : String) (c : Config) : Config :=
  { c with assistant.baseUrl := baseUrl, assistant.apiKey := some apiKey }

def withDatabase (url : String) (c : Config) : Config := { c with database.url := some url }

end Config

end Switchboard
