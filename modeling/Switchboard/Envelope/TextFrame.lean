import Switchboard.Envelope.Basic
import Switchboard.Json.Reader
import Switchboard.Json.Value

/-!
# The text form of an envelope

A text frame is an envelope as a JSON record. Every field has a default, so a client names only
those it needs; members it adds for itself are stepped over. A list stands for the fields in
declaration order. A text frame is written with every field.
-/

namespace Switchboard.Envelope

/-- The fields of an envelope, in declaration order. -/
inductive Field
  | sender | recipient | tag | content | contentType | messageType | messageId | isFragment
  | fragmentIndex | fragmentTotal | timestamp | checksum | payload
  deriving DecidableEq, Repr

namespace Field

def all : List Field :=
  [sender, recipient, tag, content, contentType, messageType, messageId, isFragment,
   fragmentIndex, fragmentTotal, timestamp, checksum, payload]

/-- The name of a field in a text frame. -/
def name : Field → String
  | sender => "from"
  | recipient => "to"
  | tag => "type"
  | content => "content"
  | contentType => "content_type"
  | messageType => "message_type"
  | messageId => "message_id"
  | isFragment => "is_fragmented"
  | fragmentIndex => "fragment_index"
  | fragmentTotal => "total_fragments"
  | timestamp => "timestamp"
  | checksum => "checksum"
  | payload => "payload"

end Field

def int32 : Json.Reader Int32 :=
  (Json.integer Int32.minValue.toInt Int32.maxValue.toInt "i32").map Int32.ofInt

def int64 : Json.Reader Int64 :=
  (Json.integer Int64.minValue.toInt Int64.maxValue.toInt "i64").map Int64.ofInt

def uint32 : Json.Reader UInt32 :=
  (Json.integer 0 (UInt32.size - 1) "u32").map fun n => UInt32.ofNat n.toNat

/-- Octets are written as a list of numbers. -/
def octetList : Json.Reader Bytes :=
  Json.list ((Json.integer 0 255 "u8").map fun n => UInt8.ofNat n.toNat)

/-- Reads a field into an envelope. -/
def Field.read : Field → Envelope → Json.Reader Envelope
  | sender, e => Json.text.map fun v => { e with sender := v }
  | recipient, e => Json.text.map fun v => { e with recipient := v }
  | tag, e => Json.text.map fun v => { e with tag := v }
  | content, e => Json.text.map fun v => { e with content := v }
  | contentType, e => int32.map fun v => { e with contentType := v }
  | messageType, e => int32.map fun v => { e with messageType := v }
  | messageId, e => Json.text.map fun v => { e with messageId := v }
  | isFragment, e => Json.flag.map fun v => { e with isFragment := v }
  | fragmentIndex, e => uint32.map fun v => { e with fragmentIndex := v }
  | fragmentTotal, e => uint32.map fun v => { e with fragmentTotal := v }
  | timestamp, e => int64.map fun v => { e with timestamp := v }
  | checksum, e => Json.text.map fun v => { e with checksum := v }
  | payload, e => octetList.map fun v => { e with payload := v }

/-- The shape of a text frame. -/
def shape : Json.Shape Field Envelope :=
  { expected := "struct Envelope", fields := Field.all, name := Field.name, read := Field.read }

/-- A text frame. -/
def reader : Json.Reader Envelope := Json.record shape {} fun _ e => .ok e

/-- The envelope a text frame stands for. -/
def ofTextFrame (text : String) : Except Json.Fault Envelope := reader.parse text.toList

/-- The value of a field. -/
def Field.value : Field → Envelope → Json.Value
  | sender, e => .text e.sender
  | recipient, e => .text e.recipient
  | tag, e => .text e.tag
  | content, e => .text e.content
  | contentType, e => .integer e.contentType.toInt
  | messageType, e => .integer e.messageType.toInt
  | messageId, e => .text e.messageId
  | isFragment, e => .flag e.isFragment
  | fragmentIndex, e => .count e.fragmentIndex.toNat
  | fragmentTotal, e => .count e.fragmentTotal.toNat
  | timestamp, e => .integer e.timestamp.toInt
  | checksum, e => .text e.checksum
  | payload, e => .list (e.payload.map fun b => .count b.toNat)

/-- The text frame of an envelope. -/
def toTextFrame (e : Envelope) : String :=
  (Json.Value.object (Field.all.map fun f => (f.name, f.value e))).render

end Switchboard.Envelope
