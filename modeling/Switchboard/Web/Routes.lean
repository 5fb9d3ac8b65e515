import Switchboard.Exchange.Start
import Switchboard.Json.Reader
import Switchboard.Web.Answer
import Switchboard.Web.EventStream
import Switchboard.Web.Request

/-!
# What can be asked

Seven paths lead somewhere. Two of them end in something that lasts: a socket, for which the client
is admitted before the connection is upgraded, and a stream of presence events. The others show
what the exchange does and what it keeps for somebody who was away. A request is first checked for
its form, and only then for what it asks.
-/

namespace Switchboard.Web

/-- Where a path leads. -/
inductive Route
  /-- A socket for messages. -/
  | socket
  /-- A stream of presence events. -/
  | events
  | shards
  | clients
  | health
  /-- The unread messages of an identity. -/
  | unread
  /-- Marking messages as read. -/
  | markRead
  deriving DecidableEq, Repr

def Route.ofPath? (path : String) : Option Route :=
  if path = "/ws" then some .socket
  else if path = "/events" then some .events
  else if path = "/monitor/shards" then some .shards
  else if path = "/monitor/clients" then some .clients
  else if path = "/health" then some .health
  else if path = "/messages/unread" then some .unread
  else if path = "/messages/read" then some .markRead
  else none

/-- The methods that a route takes. -/
def Route.methods : Route → List String
  | .markRead => ["POST"]
  | _ => ["GET", "HEAD"]

/-- What comes of a request. -/
inductive Outcome
  | answer (answer : Answer)
  /-- The connection becomes a socket of an identity, which was admitted to a shard. -/
  | upgrade (identity : String) (shard : Nat)
  | stream (stream : EventStream)

/-- An identity without the blanks around it, if anything is left. -/
def identity? (uuid : Option String) : Option String :=
  (uuid.map Text.trim).filter (· ≠ "")

/-! ## Sockets and streams -/

/-- A request for a socket. -/
def connect (x : Exchange) (r : Request) : Outcome × Exchange :=
  match r.query.single "uuid", r.upgradeFault? with
  | none, _ => (.answer (.bare 400), x)
  | some _, some fault => (.answer (.bare fault.status), x)
  | some uuid, none =>
    match identity? uuid with
    | none => (.answer (.ofFault (.request 401 "missing uuid")), x)
    | some identity =>
      match x.place with
      | (.ok shard, x) => (.upgrade identity shard, x)
      | (.error fault, x) => (.answer (.ofFault fault), x)

/-- The greatest length of one frame on any socket. -/
def frameLimit : Nat := 16777216

/-- Starts the session of a client whose connection became a socket. Nothing is registered if no queue
can hold as many frames as it should, and nothing runs if the registration breaks off. -/
def accept (x : Exchange) (identity : String) (shard : Nat)
    (remoteAddress : Option SocketAddress) : Session × Exchange :=
  let settings := x.config.connection
  let wire := Wire.webSocket (min settings.maxFrameSize frameLimit)
  let (session, x) := x.openConnection identity remoteAddress settings.outboundCapacity
  if Queue.greatestCapacity < settings.outboundCapacity then (session, x)
  else match x.register shard session with
  | (true, x) => (session, x.openSocket session wire settings.keepalive)
  | (false, x) => (session, x.abandonSocket session wire settings.keepalive)

/-- A request for a stream of presence events. -/
def follow (x : Exchange) (r : Request) : Outcome × Exchange :=
  match x.subscribe with
  | none =>
    (.answer (.ofFault (.request 503 "presence events need the broker enabled")), x)
  | some (subscriber, x) =>
    (.stream { subscriber, kinds := (r.query.last? "kinds").bind PresenceKind.parseList }, x)

/-- The presence events that a stream can pass on now. -/
def nextEvents (x : Exchange) (s : EventStream) : List PresenceEvent × Exchange :=
  let (readings, x) := x.readEvents s.subscriber
  (readings.filterMap s.select, x)

/-! ## Messages for those who were away -/

/-- The answer to a request without an identity. -/
def identityRequired : Answer := .ofFault (.request 400 "uuid is required")

def listUnread (x : Exchange) (r : Request) : Answer × Exchange :=
  match r.query.single "uuid", r.query.count "page" 1, r.query.count "limit" 20 with
  | some uuid, some page, some limit =>
    match identity? uuid with
    | none => (identityRequired, x)
    | some target =>
      match x.attempt .listUnread with
      | (.ok (), x) =>
        let messages := x.services.offline.listUnread target page limit
        (.json (.list (messages.map StoredMessage.toJson)), x)
      | (.error stop, x) => (.ofStop stop, x)
  | _, _, _ => (.bare 400, x)

/-- What a request to mark messages as read names. -/
inductive MarkField
  | uuid | messageIds
  deriving DecidableEq

def MarkField.name : MarkField → String
  | uuid => "uuid"
  | messageIds => "message_ids"

/-- A request to mark messages as read, as far as it was read. -/
structure Marking where
  uuid : Option String := none
  messageIds : List String := []

def markShape : Json.Shape MarkField Marking :=
  { expected := "struct MarkReadRequest", fields := [.uuid, .messageIds], name := MarkField.name
    read := fun
      | .uuid, m => Json.text.map fun v => { m with uuid := some v }
      | .messageIds, m => (Json.list Json.text).map fun v => { m with messageIds := v } }

/-- Whose messages are marked, and which. -/
def marking : Json.Reader (String × List String) :=
  Json.record markShape {} fun _ m =>
    match m.uuid with
    | some uuid => .ok (uuid, m.messageIds)
    | none => .error (.missingField "uuid")

/-- Marks messages as read, if the store is not out. -/
def markReadOf (x : Exchange) (target : String) (ids : List String) :
    Except Stop Nat × Exchange :=
  match x.attempt .markRead with
  | (.ok (), x) =>
    let (updated, offline) := x.services.offline.markRead target ids
    (.ok updated, { x with services.offline := offline })
  | (.error stop, x) => (.error stop, x)

/-- How many messages were marked. -/
def updatedAnswer (n : Nat) : Answer := .json (.object [("updated", .count n)])

/-- The greatest length of a body. -/
def bodyLimit : Nat := 2097152

def markRead (x : Exchange) (r : Request) : Answer × Exchange :=
  if !r.hasJson then (.bare 415, x)
  else if bodyLimit < r.body.utf8ByteSize then (.bare 413, x)
  else
    match marking.parse r.body.toList with
    | .error fault => (.bare (if fault.isOfShape then 422 else 400), x)
    | .ok (uuid, ids) =>
      match identity? (some uuid) with
      | none => (identityRequired, x)
      | some target =>
        if ids.isEmpty then (updatedAnswer 0, x)
        else
          match markReadOf x target ids with
          | (.ok updated, x) => (updatedAnswer updated, x)
          | (.error stop, x) => (.ofStop stop, x)

/-! ## All of them -/

/-- What a route does with a request of the right method. -/
def serve (x : Exchange) (r : Request) : Route → Outcome × Exchange
  | .socket => connect x r
  | .events => follow x r
  | .shards => (.answer (.json x.stats.toJson), x)
  | .clients => (.answer (.json (.list (x.clients.map ClientInfo.toJson))), x)
  | .health => (.answer (.text 200 "ok"), x)
  | .unread =>
    let (answer, x) := listUnread x r
    (.answer answer, x)
  | .markRead =>
    let (answer, x) := markRead x r
    (.answer answer, x)

/-- What comes of a request, its answer with all that it carries. -/
def respondInFull (x : Exchange) (r : Request) : Outcome × Exchange :=
  match Route.ofPath? r.path with
  | none => (.answer (.text 404 "404 Not Found"), x)
  | some route =>
    if r.method ∈ route.methods then serve x r route else (.answer (.bare 405), x)

/-- What comes of a request. Who asks for the head of an answer gets no more than that. -/
def respond (x : Exchange) (r : Request) : Outcome × Exchange :=
  match respondInFull x r with
  | (.answer answer, x) => (.answer (if r.method = "HEAD" then answer.head else answer), x)
  | other => other

/-- Opens a socket, or tells the status of the answer to a request that is refused one. -/
def join (x : Exchange) (r : Request) (remoteAddress : Option SocketAddress) :
    Except Nat Session × Exchange :=
  match respond x r with
  | (.upgrade identity shard, x) =>
    let (session, x) := accept x identity shard remoteAddress
    (.ok session, x)
  | (.answer answer, x) => (.error answer.status, x)
  | (.stream stream, x) => (.error 200, x.unsubscribe stream.subscriber)

end Switchboard.Web
