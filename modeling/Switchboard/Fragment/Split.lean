import Switchboard.Digest
import Switchboard.Envelope.Fault

/-!
# Splitting an envelope

A message whose binary form is longer than a frame may be goes out as fragments: its octets are cut
into runs of the greatest length, and each run travels as the payload of an envelope that is
addressed like the message, knows its place and how many there are, and carries the digest of the
whole. Joined in order, the payloads are the message again.
-/

namespace Switchboard

/-- Why a fragment, or the message it belongs to, is refused. -/
inductive FragmentFault
  | missingMessageId
  /-- The number of fragments it declares is zero or above the cap. -/
  | invalidTotal (messageId : String) (total cap : UInt32)
  | indexOutOfRange (messageId : String) (index total : UInt32)
  /-- It declares another number of fragments than the ones before it. -/
  | totalMismatch (messageId : String) (expected got : UInt32)
  /-- It declares another digest than the ones before it. -/
  | checksumMismatch (messageId : String)
  /-- The joined octets do not have the declared digest. -/
  | integrityFailure (messageId : String)
  | tooManyFragments (size required : Nat) (cap : UInt32)
  /-- The joined octets are no envelope. -/
  | codec (fault : EnvelopeFault)
  deriving DecidableEq, Repr

/-- How a fault is told to a person. -/
def FragmentFault.message : FragmentFault → String
  | missingMessageId => "fragment has no message id"
  | invalidTotal messageId total cap =>
    s!"message {messageId}: invalid fragment total {total} (cap {cap})"
  | indexOutOfRange messageId index total =>
    s!"message {messageId}: fragment index {index} out of range for {total} fragments"
  | totalMismatch messageId expected got =>
    s!"message {messageId}: fragment declares {got} fragments, assembly expects {expected}"
  | checksumMismatch messageId =>
    s!"message {messageId}: fragment checksum does not match assembly"
  | integrityFailure messageId =>
    s!"message {messageId}: reassembled bytes fail checksum verification"
  | tooManyFragments size required cap =>
    s!"envelope of {size} bytes needs {required} fragments, cap is {cap}"
  | codec fault => fault.message

/-- How large frames may be, how many fragments a message may have, and how long a message may stay
incomplete. -/
structure FragmentLimits where
  /-- The greatest number of octets of a fragment's payload. -/
  size : Nat
  cap : UInt32
  /-- In milliseconds. -/
  timeout : Nat
  size_pos : 0 < size := by decide
  deriving DecidableEq

namespace FragmentLimits

theorem size_pos_max (size : Nat) : 0 < max 1 size := by omega

/-- Limits with a size of at least one octet. -/
def make (size : Nat) (cap : UInt32) (timeout : Nat) : FragmentLimits where
  size := max 1 size
  cap := cap
  timeout := timeout
  size_pos := size_pos_max size

/-- The number of fragments that a given number of octets fills. -/
def required (limits : FragmentLimits) (length : Nat) : Nat :=
  (length + limits.size - 1) / limits.size

end FragmentLimits

/-- The octets in runs of `size`, the last one possibly shorter. -/
def chunks (size : Nat) (size_pos : 0 < size) (octets : Bytes) : List Bytes :=
  if octets.isEmpty then []
  else octets.take size :: chunks size size_pos (octets.drop size)
termination_by octets.length
decreasing_by
  rename_i h
  have : octets.length ≠ 0 := by simpa [List.isEmpty_iff] using h
  simp only [List.length_drop]
  omega

namespace Envelope

/-- Whether an envelope does not fit one frame. -/
def isOversized (limits : FragmentLimits) (e : Envelope) : Bool := limits.size < e.encodedLength

/-- The message with an identity and a time of its own if it had none. -/
def completed (fresh : String) (now : Int64) (e : Envelope) : Envelope :=
  { e with
    messageId := if e.messageId = "" then fresh else e.messageId
    timestamp := if e.timestamp = 0 then now else e.timestamp }

/-- The fragment of a message with a given place and share of the octets. -/
def fragment (e : Envelope) (checksum : String) (total index : Nat) (share : Bytes) : Envelope :=
  { sender := e.sender, recipient := e.recipient, contentType := e.contentType,
    messageType := e.messageType, messageId := e.messageId, isFragment := true,
    fragmentIndex := UInt32.ofNat index, fragmentTotal := UInt32.ofNat total,
    timestamp := e.timestamp, checksum, payload := share }

/-- The fragments of a message, in order. `fresh` and `now` are the identity and time it is given if
it has none. -/
def split (limits : FragmentLimits) (fresh : String) (now : Int64) (e : Envelope) :
    Except FragmentFault (List Envelope) :=
  let whole := e.completed fresh now
  -- the digest is of the completed message, so that the joined octets are checked as they are
  let octets := whole.encode
  let required := limits.required octets.length
  if limits.cap.toNat < required then
    .error (.tooManyFragments octets.length required limits.cap)
  else
    let checksum := Digest.checksum octets
    .ok ((chunks limits.size limits.size_pos octets).mapIdx fun index share =>
      whole.fragment checksum required index share)

end Envelope

end Switchboard
