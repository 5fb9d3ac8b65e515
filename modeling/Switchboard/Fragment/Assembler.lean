import Switchboard.Fragment.Split
import Switchboard.Table

/-!
# Joining fragments

An assembler keeps, for each message it has fragments of, the first fragment's total and digest and
one share for each index that came. The fragment that fills the last gap completes the message: the
shares are joined in order of their index, checked against the digest, and read as an envelope. A
fragment that is refused leaves everything as it was. A message that is still incomplete when its
time is over is forgotten.
-/

namespace Switchboard

/-- A message of which some fragments came. -/
structure Assembly where
  total : UInt32
  checksum : String
  /-- The share of each index that came. -/
  parts : Table UInt32 Bytes
  /-- When the first fragment came, in milliseconds. -/
  openedAt : Nat

namespace Assembly

/-- A message before its first fragment. -/
def opened (total : UInt32) (checksum : String) (now : Nat) : Assembly :=
  { total, checksum, parts := .empty, openedAt := now }

/-- Keeps a share, in place of an earlier one with its index. -/
def add (a : Assembly) (index : UInt32) (share : Bytes) : Assembly :=
  { a with parts := a.parts.insert index share }

/-- The number of different indices that came. -/
def received (a : Assembly) : Nat := a.parts.size

/-- The shares joined in order of their index. -/
def octets (a : Assembly) : Bytes :=
  (List.range a.total.toNat).flatMap fun i => (a.parts.get? (UInt32.ofNat i)).getD []

/-- The message that the shares are the octets of. -/
def message (messageId : String) (a : Assembly) : Except FragmentFault Envelope :=
  let octets := a.octets
  if Digest.checksum octets = a.checksum then
    match Envelope.decode octets with
    | .ok e => .ok e.clearFragmentFields
    | .error fault => .error (.codec (.ofBinary fault))
  else .error (.integrityFailure messageId)

end Assembly

/-- What an envelope comes to at an assembler. -/
inductive Outcome
  /-- It is a whole message, or the last fragment of this one. -/
  | complete (message : Envelope)
  | pending (received : Nat) (total : UInt32)
  deriving DecidableEq, Repr

/-- The incomplete messages of one place, under its limits. -/
structure Assembler where
  limits : FragmentLimits
  pending : Table String Assembly

namespace Assembler

def new (limits : FragmentLimits) : Assembler := { limits, pending := .empty }

/-- The assembly that a fragment belongs to: the pending one of its message, else a new one. -/
def assemblyFor (a : Assembler) (now : Nat) (e : Envelope) : Assembly :=
  (a.pending.get? e.messageId).getD (.opened e.fragmentTotal e.checksum now)

/-- What is wrong with a fragment on its own. -/
def check (a : Assembler) (e : Envelope) : Except FragmentFault Unit :=
  if e.messageId = "" then .error .missingMessageId
  else if e.fragmentTotal = 0 ∨ a.limits.cap < e.fragmentTotal then
    .error (.invalidTotal e.messageId e.fragmentTotal a.limits.cap)
  else if e.fragmentTotal ≤ e.fragmentIndex then
    .error (.indexOutOfRange e.messageId e.fragmentIndex e.fragmentTotal)
  else .ok ()

/-- What is wrong with a fragment beside those that came before it. -/
def checkAgainst (assembly : Assembly) (e : Envelope) : Except FragmentFault Unit :=
  if assembly.total ≠ e.fragmentTotal then
    .error (.totalMismatch e.messageId assembly.total e.fragmentTotal)
  else if assembly.checksum ≠ e.checksum then .error (.checksumMismatch e.messageId)
  else .ok ()

/-- Takes in an envelope that came at the time `now`. -/
def receive (a : Assembler) (now : Nat) (e : Envelope) :
    Except FragmentFault Outcome × Assembler :=
  if !e.isFragment then (.ok (.complete e), a)
  else
    match a.check e with
    | .error fault => (.error fault, a)
    | .ok () =>
      let assembly := a.assemblyFor now e
      match checkAgainst assembly e with
      | .error fault => (.error fault, a)
      | .ok () =>
        let assembly := assembly.add e.fragmentIndex e.payload
        if assembly.received = assembly.total.toNat then
          -- the assembly is over, even if its octets turn out not to be the message
          let rest := { a with pending := a.pending.erase e.messageId }
          match assembly.message e.messageId with
          | .ok message => (.ok (.complete message), rest)
          | .error fault => (.error fault, rest)
        else
          (.ok (.pending assembly.received assembly.total),
            { a with pending := a.pending.insert e.messageId assembly })

/-- Whether an assembly's time is over. -/
def isExpired (a : Assembler) (now : Nat) (assembly : Assembly) : Bool :=
  a.limits.timeout ≤ now - assembly.openedAt

/-- Forgets the messages whose time is over, and counts them. -/
def sweep (a : Assembler) (now : Nat) : Nat × Assembler :=
  let kept := a.pending.filter fun _ assembly => !a.isExpired now assembly
  (a.pending.size - kept.size, { a with pending := kept })

/-- The number of incomplete messages. -/
def pendingCount (a : Assembler) : Nat := a.pending.size

end Assembler

end Switchboard
