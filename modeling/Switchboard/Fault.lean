import Switchboard.Fragment.Split

/-!
# What can go wrong in the exchange

One type for everything that routing, connections, collaborators and requests fail with. A fault
has a message, a shorter text for the person who asked, and the status of an HTTP answer.
-/

namespace Switchboard

/-- Why a configuration is refused. -/
inductive ConfigFault
  /-- A value that the exchange cannot run with. -/
  | invalidValue (field message : String)
  /-- The file is no configuration. -/
  | malformed
  /-- The file cannot be read. -/
  | unreadable
  deriving DecidableEq, Repr

/-- How a fault is told to a person. -/
def ConfigFault.message : ConfigFault → String
  | invalidValue field message => s!"invalid value for {field}: {message}"
  | malformed => "malformed configuration"
  | unreadable => "unreadable configuration"

/-- What went wrong. -/
inductive Fault
  /-- A request that is refused with a status of its own. -/
  | request (status : Nat) (message : String)
  | state (message : String)
  | protocol (message : String)
  /-- A socket or connection that is gone. -/
  | transport (message : String)
  /-- A bounded queue had no room, and the message is dropped. -/
  | queueFull (queue : String)
  /-- A service that the exchange works with failed. -/
  | collaborator (name message : String)
  /-- Every shard is at its threshold and there can be no more of them. -/
  | poolExhausted (shards threshold : Nat)
  | envelope (fault : EnvelopeFault)
  | fragment (fault : FragmentFault)
  | config (fault : ConfigFault)
  | database (message : String)
  /-- A request of the exchange's own that got no usable answer. -/
  | remote (message : String)
  | rendering (message : String)
  deriving DecidableEq, Repr

namespace Fault

/-- How a fault is told to a person. -/
def message : Fault → String
  | request _ message => s!"Handler error: {message}"
  | state message => s!"State error: {message}"
  | protocol message => s!"Protocol error: {message}"
  | transport message => s!"Transport error: {message}"
  | queueFull queue => s!"{queue} queue full, message dropped"
  | collaborator name message => s!"{name} failed: {message}"
  | poolExhausted shards threshold =>
    s!"shard pool exhausted ({shards} shards at load threshold {threshold})"
  | envelope fault => fault.message
  | fragment fault => fault.message
  | config fault => fault.message
  | database message => s!"Database error: {message}"
  | remote message => s!"HTTP client error: {message}"
  | rendering message => s!"Serialization error: {message}"

/-- What the person who asked is told. -/
def text : Fault → String
  | request _ message | state message | protocol message | transport message => message
  | fault => fault.message

/-- The status of an answer to a request that failed so. -/
def status : Fault → Nat
  | request status _ => status
  | protocol _ | fragment _ | envelope _ => 400
  | queueFull _ | poolExhausted _ _ => 503
  | collaborator _ _ | remote _ => 502
  | transport _ | state _ | config _ | database _ | rendering _ => 500

/-- Whether a message was dropped for want of room. -/
def isBackpressure : Fault → Bool
  | queueFull _ => true
  | _ => false

end Fault

end Switchboard
