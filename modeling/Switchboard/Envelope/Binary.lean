import Switchboard.Envelope.Basic
import Switchboard.Text.Utf8

/-!
# The binary form of an envelope

The fields stand one after the other in declaration order: integers little-endian in their width,
a flag as one octet, a text or a payload behind its length in eight octets. `Envelope.encode` is
the concatenation of the fields; a reader takes one field off the front of a run and gives the rest
back. Octets after the last field are not looked at.
-/

namespace Switchboard

namespace Binary

/-- Why a run of octets is no envelope. -/
inductive Fault
  /-- It ends inside an integer, a length, a flag or a payload. -/
  | endOfInput
  /-- A text is longer than what is left. -/
  | shortText
  /-- A flag is neither zero nor one. -/
  | badFlag (octet : UInt8)
  /-- A text is not UTF-8. -/
  | badText (fault : Utf8.Fault)
  deriving DecidableEq, Repr

/-- How a fault is told to a person. -/
def Fault.message : Fault → String
  | endOfInput => "io error: unexpected end of file"
  | shortText => "io error: "
  | badFlag octet => s!"invalid u8 while decoding bool, expected 0 or 1, found {octet.toNat}"
  | badText fault => s!"string is not valid utf8: {fault.message}"

/-! ## Fields written -/

def writeText (text : String) : Bytes :=
  Bytes.littleEndian 8 text.utf8ByteSize ++ Utf8.octets text

def writeFlag (flag : Bool) : Bytes := [if flag then 1 else 0]

def writeUInt32 (n : UInt32) : Bytes := Bytes.littleEndian 4 n.toNat

def writeInt32 (n : Int32) : Bytes := Bytes.littleEndian 4 n.toUInt32.toNat

def writeInt64 (n : Int64) : Bytes := Bytes.littleEndian 8 n.toUInt64.toNat

def writePayload (payload : Bytes) : Bytes := Bytes.littleEndian 8 payload.length ++ payload

/-! ## Fields read -/

/-- Takes a value off the front of a run. -/
abbrev Reader (α : Type) := Bytes → Except Fault (α × Bytes)

/-- Reads `width` octets as a number, least significant first. -/
def readWord : (width : Nat) → Reader Nat
  | 0, bytes => .ok (0, bytes)
  | _ + 1, [] => .error .endOfInput
  | width + 1, b :: bytes =>
    match readWord width bytes with
    | .ok (n, rest) => .ok (b.toNat + 256 * n, rest)
    | .error fault => .error fault

def readText : Reader String := fun bytes =>
  match readWord 8 bytes with
  | .error fault => .error fault
  | .ok (length, rest) =>
    if rest.length < length then .error .shortText
    else
      match Utf8.decode (rest.take length) with
      | .ok text => .ok (text, rest.drop length)
      | .error fault => .error (.badText fault)

def readFlag : Reader Bool
  | [] => .error .endOfInput
  | b :: rest => if b = 0 then .ok (false, rest) else if b = 1 then .ok (true, rest)
    else .error (.badFlag b)

def readUInt32 : Reader UInt32 := fun bytes => do
  let (n, rest) ← readWord 4 bytes
  return (UInt32.ofNat n, rest)

def readInt32 : Reader Int32 := fun bytes => do
  let (n, rest) ← readWord 4 bytes
  return ((UInt32.ofNat n).toInt32, rest)

def readInt64 : Reader Int64 := fun bytes => do
  let (n, rest) ← readWord 8 bytes
  return ((UInt64.ofNat n).toInt64, rest)

def readPayload : Reader Bytes := fun bytes =>
  match readWord 8 bytes with
  | .error fault => .error fault
  | .ok (length, rest) =>
    if rest.length < length then .error .endOfInput
    else .ok (rest.take length, rest.drop length)

/-- Reads the fields of an envelope in declaration order. -/
def readEnvelope : Reader Envelope := fun bytes => do
  let (sender, bytes) ← readText bytes
  let (recipient, bytes) ← readText bytes
  let (tag, bytes) ← readText bytes
  let (content, bytes) ← readText bytes
  let (contentType, bytes) ← readInt32 bytes
  let (messageType, bytes) ← readInt32 bytes
  let (messageId, bytes) ← readText bytes
  let (isFragment, bytes) ← readFlag bytes
  let (fragmentIndex, bytes) ← readUInt32 bytes
  let (fragmentTotal, bytes) ← readUInt32 bytes
  let (timestamp, bytes) ← readInt64 bytes
  let (checksum, bytes) ← readText bytes
  let (payload, bytes) ← readPayload bytes
  return ({ sender, recipient, tag, content, contentType, messageType, messageId, isFragment,
            fragmentIndex, fragmentTotal, timestamp, checksum, payload }, bytes)

end Binary

namespace Envelope

open Binary

/-- The octets of an envelope. -/
def encode (e : Envelope) : Bytes :=
  writeText e.sender ++ (writeText e.recipient ++ (writeText e.tag ++ (writeText e.content ++
  (writeInt32 e.contentType ++ (writeInt32 e.messageType ++ (writeText e.messageId ++
  (writeFlag e.isFragment ++ (writeUInt32 e.fragmentIndex ++ (writeUInt32 e.fragmentTotal ++
  (writeInt64 e.timestamp ++ (writeText e.checksum ++ writePayload e.payload)))))))))))

/-- The envelope at the front of a run of octets. -/
def decode (bytes : Bytes) : Except Binary.Fault Envelope :=
  match readEnvelope bytes with
  | .ok (e, _) => .ok e
  | .error fault => .error fault

/-- The size of an envelope that holds nothing. -/
def emptySize : Nat := 81

/-- The number of octets an envelope is written in, found without writing it. -/
def encodedLength (e : Envelope) : Nat :=
  emptySize + e.sender.utf8ByteSize + e.recipient.utf8ByteSize + e.tag.utf8ByteSize
    + e.content.utf8ByteSize + e.messageId.utf8ByteSize + e.checksum.utf8ByteSize
    + e.payload.length

end Envelope

end Switchboard
