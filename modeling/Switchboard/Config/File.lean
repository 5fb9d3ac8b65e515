import Switchboard.Config.Basic
import Switchboard.Toml.Document

/-!
# Configuration files

A file has a table for each section. A section may also be a list of its first settings in order.
Sections and settings that the exchange does not know are let be; a setting of the wrong type makes
the whole file useless.
-/

namespace Switchboard.Config

open Toml (Value)

/-- The settings of a section by name, and how a value is put into each. -/
abbrev Fields (σ : Type) := List (String × (Value → σ → Option σ))

/-- Puts a named value into a section, if the section has a setting of that name. -/
def Fields.put {σ : Type} (fields : Fields σ) (s : σ) (entry : String × Value) : Option σ :=
  match fields.find? fun field => field.1 == entry.1 with
  | some (_, set) => set entry.2 s
  | none => some s

/-- A section with the values that are given, the others as they are in `start`. -/
def Fields.read {σ : Type} (fields : Fields σ) (start : σ) : Value → Option σ
  | .table _ entries => entries.foldlM fields.put start
  | .array items | .tables items =>
    (fields.zip items).foldlM (fun s (field, value) => field.2 value s) start
  | .moment => some start
  | _ => none

def count? (limit : Nat) : Value → Option Nat
  | .integer n => if 0 ≤ n ∧ n ≤ limit then some n.toNat else none
  | _ => none

def text? : Value → Option String
  | .text s => some s
  | _ => none

def flag? : Value → Option Bool
  | .flag b => some b
  | _ => none

/-- A setting that counts something, of at most sixty-four bits. -/
def countField {σ : Type} (name : String) (set : Nat → σ → σ) :
    String × (Value → σ → Option σ) :=
  (name, fun v s => (count? (UInt64.size - 1) v).map (set · s))

def textField {σ : Type} (name : String) (set : String → σ → σ) :
    String × (Value → σ → Option σ) :=
  (name, fun v s => (text? v).map (set · s))

def flagField {σ : Type} (name : String) (set : Bool → σ → σ) :
    String × (Value → σ → Option σ) :=
  (name, fun v s => (flag? v).map (set · s))

def serverFields : Fields ServerSettings :=
  [textField "bind_addr" fun v s => { s with bindAddress := v }]

def poolFields : Fields PoolSettings :=
  [countField "initial_shards" fun v s => { s with initialShards := v },
   countField "max_shards" fun v s => { s with maxShards := v },
   countField "load_threshold" fun v s => { s with loadThreshold := v },
   flagField "reject_when_saturated" fun v s => { s with rejectWhenSaturated := v }]

def shardFields : Fields ShardSettings :=
  [countField "work_queue_capacity" fun v s => { s with workQueueCapacity := v },
   countField "forward_queue_capacity" fun v s => { s with forwardQueueCapacity := v },
   countField "processors" fun v s => { s with processors := v }]

def connectionFields : Fields ConnectionSettings :=
  [countField "outbound_capacity" fun v s => { s with outboundCapacity := v },
   countField "heartbeat_interval_secs" fun v s => { s with heartbeatInterval := v },
   countField "heartbeat_timeout_secs" fun v s => { s with heartbeatTimeout := v },
   countField "max_frame_bytes" fun v s => { s with maxFrameSize := v }]

def fragmentFields : Fields FragmentSettings :=
  [countField "max_fragment_size" fun v s => { s with maxFragmentSize := v },
   ("max_fragments", fun v s =>
      (count? (UInt32.size - 1) v).map fun n => { s with maxFragments := UInt32.ofNat n }),
   countField "assembly_timeout_secs" fun v s => { s with assemblyTimeout := v },
   countField "sweep_interval_secs" fun v s => { s with sweepInterval := v }]

def brokerFields : Fields BrokerSettings :=
  [flagField "enabled" fun v s => { s with enabled := v },
   countField "capacity" fun v s => { s with capacity := v }]

def assistantFields : Fields AssistantSettings :=
  [textField "identity" fun v s => { s with identity := v },
   textField "base_url" fun v s => { s with baseUrl := v },
   textField "model" fun v s => { s with model := v },
   textField "api_key" fun v s => { s with apiKey := some v },
   countField "request_timeout_secs" fun v s => { s with requestTimeout := v }]

def databaseFields : Fields DatabaseSettings :=
  [textField "url" fun v s => { s with url := some v }]

/-- The sections of a file. -/
def sections : Fields Config :=
  [("server", fun v c => (serverFields.read {} v).map fun s => { c with server := s }),
   ("pool", fun v c => (poolFields.read {} v).map fun s => { c with pool := s }),
   ("shard", fun v c => (shardFields.read {} v).map fun s => { c with shard := s }),
   ("connection", fun v c => (connectionFields.read {} v).map fun s => { c with connection := s }),
   ("fragment", fun v c => (fragmentFields.read {} v).map fun s => { c with fragment := s }),
   ("broker", fun v c => (brokerFields.read {} v).map fun s => { c with broker := s }),
   ("assistant", fun v c => (assistantFields.read {} v).map fun s => { c with assistant := s }),
   ("database", fun v c => (databaseFields.read {} v).map fun s => { c with database := s })]

/-- The configuration in a file, whether or not the exchange can run with it. -/
def read (file : String) : Except ConfigFault Config :=
  match (Toml.parse file).bind (·.foldlM sections.put {}) with
  | some c => .ok c
  | none => .error .malformed

/-- The configuration in a file, if the exchange can run with it. -/
def ofFile (file : String) : Except ConfigFault Config :=
  match read file with
  | .ok c => c.checked
  | .error fault => .error fault

end Switchboard.Config
