import Switchboard.Envelope.Binary
import Switchboard.Envelope.TextFrame

/-!
# Why a frame is refused

The faults of both forms of an envelope under one type, with the name of the form they come from.
-/

namespace Switchboard

/-- Why something is no usable envelope. -/
inductive EnvelopeFault
  /-- It cannot be read in the form it came in. -/
  | codec (format message : String)
  /-- A field holds a value that nothing can be done with. -/
  | field (name message : String)
  /-- It was read, and cannot be handled. -/
  | unusable (message : String)
  deriving DecidableEq, Repr

namespace EnvelopeFault

/-- How a fault is told to a person. -/
def message : EnvelopeFault → String
  | codec format message => s!"Codec error ({format}): {message}"
  | field name message => s!"Validation error in field '{name}': {message}"
  | unusable message => s!"Envelope error: {message}"

/-- Whether the fault lies in the octets that came. -/
def isCodec : EnvelopeFault → Bool
  | codec _ _ => true
  | _ => false

/-- The fault of a binary frame. -/
def ofBinary (fault : Binary.Fault) : EnvelopeFault := codec "bincode" fault.message

/-- The fault of a text frame. -/
def ofJson (fault : Json.Fault) : EnvelopeFault := codec "json" fault.message

end EnvelopeFault

end Switchboard
