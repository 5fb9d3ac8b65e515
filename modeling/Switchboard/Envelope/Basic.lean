import Switchboard.Bytes

/-!
# Envelopes

An envelope is the one unit of traffic: every socket frame, every message in flight and every
fragment of a large message is one. Its integers have the widths they have on the wire.
-/

namespace Switchboard

/-- One message, or one fragment of one. -/
structure Envelope where
  /-- The identity that sent it. -/
  sender : String := ""
  /-- The identity or group it is for; empty for a notice to everybody. -/
  recipient : String := ""
  /-- The frame type; only heartbeats have one. -/
  tag : String := ""
  content : String := ""
  /-- The code of the content kind. -/
  contentType : Int32 := 0
  /-- The code of the delivery kind. -/
  messageType : Int32 := 0
  messageId : String := ""
  isFragment : Bool := false
  /-- The position of a fragment, from zero. -/
  fragmentIndex : UInt32 := 0
  /-- The number of fragments of the whole message. -/
  fragmentTotal : UInt32 := 0
  /-- Milliseconds since the epoch. -/
  timestamp : Int64 := 0
  /-- Of a fragment: the digest of the whole message's octets, in hexadecimal. -/
  checksum : String := ""
  /-- Raw content, or a fragment's share of the message's octets. -/
  payload : Bytes := []
  deriving DecidableEq, Repr, Inhabited

/-- What an envelope carries. -/
inductive ContentKind
  | text | file | image | voice | video | voiceCall | videoCall | friendRequest
  | other (code : Int32)
  deriving DecidableEq, Repr, Inhabited

namespace ContentKind

/-- The kind with a given code. -/
def ofCode (code : Int32) : ContentKind :=
  if code = 1 then text
  else if code = 2 then file
  else if code = 3 then image
  else if code = 4 then voice
  else if code = 5 then video
  else if code = 6 then voiceCall
  else if code = 7 then videoCall
  else if code = 8 then friendRequest
  else other code

/-- The code a kind is written as. -/
def code : ContentKind → Int32
  | text => 1
  | file => 2
  | image => 3
  | voice => 4
  | video => 5
  | voiceCall => 6
  | videoCall => 7
  | friendRequest => 8
  | other code => code

/-- How a kind is shown in a log. -/
def name : ContentKind → String
  | text => "Text"
  | file => "File"
  | image => "Image"
  | voice => "Voice"
  | video => "Video"
  | voiceCall => "VoiceCall"
  | videoCall => "VideoCall"
  | friendRequest => "FriendRequest"
  | other code => s!"Other({code.toInt})"

/-- Call signalling means nothing to somebody who was away when it came. -/
def isCallSignal : ContentKind → Bool
  | voiceCall | videoCall => true
  | _ => false

end ContentKind

/-- How an envelope is addressed. -/
inductive DeliveryKind
  | direct | group
  deriving DecidableEq, Repr, Inhabited

/-- How a way of delivery is shown in a log. -/
def DeliveryKind.name : DeliveryKind → String
  | direct => "Direct"
  | group => "Group"

namespace Envelope

/-- The message type of a direct message. -/
def directCode : Int32 := 1

/-- The message type that group messages are sent with; readers take every code but `directCode`
for one. -/
def groupCode : Int32 := 2

/-- The frame type of heartbeats. -/
def heartbeatTag : String := "heartbeat"

/-- The content of the answer to a heartbeat. -/
def pongContent : String := "pong"

/-- A message from one identity to another. -/
def direct (sender recipient : String) (kind : ContentKind) (content : String) (now : Int64) :
    Envelope :=
  { sender, recipient, content, contentType := kind.code, messageType := directCode,
    timestamp := now }

/-- A message to every member of a group. -/
def group (sender recipient : String) (kind : ContentKind) (content : String) (now : Int64) :
    Envelope :=
  { direct sender recipient kind content now with messageType := groupCode }

/-- The sign of life a client sends. -/
def heartbeat (sender : String) (now : Int64) : Envelope :=
  { sender, tag := heartbeatTag, timestamp := now }

/-- The answer to a heartbeat. -/
def pong (now : Int64) : Envelope :=
  { tag := heartbeatTag, content := pongContent, timestamp := now }

def isHeartbeat (e : Envelope) : Bool := e.tag == heartbeatTag

/-- A notice goes to everybody. -/
def isNotice (e : Envelope) : Bool := e.recipient == ""

def contentKind (e : Envelope) : ContentKind := .ofCode e.contentType

def deliveryKind (e : Envelope) : DeliveryKind :=
  if e.messageType = directCode then .direct else .group

/-- The message without its fragment fields, as it was before it was split. -/
def clearFragmentFields (e : Envelope) : Envelope :=
  { e with isFragment := false, fragmentIndex := 0, fragmentTotal := 0, checksum := "" }

end Envelope

end Switchboard
