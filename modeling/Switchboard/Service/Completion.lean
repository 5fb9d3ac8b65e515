import Switchboard.Config.Basic
import Switchboard.Json.Reader
import Switchboard.Json.Value
import Switchboard.Service.Services
import Switchboard.Web.Status

/-!
# Prompts over the network

An assistant may be a server that completes conversations. A prompt goes out as a conversation of
one turn, and the first choice of the answer is the reply. How requests are carried is not decided
here: a transport either brings an answer back or tells why there is none.
-/

namespace Switchboard.Completion

/-- A request for a completion. -/
structure Request where
  url : String
  authorization : String
  body : Json.Value

/-- What a server answers. -/
structure Reply where
  status : Nat
  body : String

/-- What carries requests to their servers. -/
abbrev Transport := Request → Except String Reply

/-- Where prompts go, for which model, and with which key. -/
structure Client where
  endpoint : String
  model : String
  apiKey : String

/-- A text without the slashes at its end. -/
def withoutSlashes (url : String) : String :=
  String.ofList (url.toList.reverse.dropWhile (· = '/')).reverse

/-- The client of an assistant that has a key. -/
def Client.ofSettings (s : AssistantSettings) : Except Fault Client :=
  match s.apiKey with
  | some apiKey =>
    if apiKey = "" then .error (.state "assistant API key is not configured")
    else .ok { endpoint := withoutSlashes s.baseUrl ++ "/chat/completions", model := s.model, apiKey }
  | none => .error (.state "assistant API key is not configured")

def Client.request (c : Client) (prompt : String) : Request :=
  { url := c.endpoint
    authorization := "Bearer " ++ c.apiKey
    body := .object
      [("model", .text c.model),
       ("messages", .list [.object [("role", .text "user"), ("content", .text prompt)]]),
       ("stream", .flag false)] }

/-! ## Reading an answer -/

/-- The parts of a turn of a conversation. -/
inductive TurnField
  | role | content
  deriving DecidableEq

/-- One turn of a conversation, as far as it was read: who speaks, and what is said. -/
structure Turn where
  role : Option String := none
  content : Option String := none

def TurnField.name : TurnField → String
  | role => "role"
  | content => "content"

def turnShape : Json.Shape TurnField Turn :=
  { expected := "struct ChatTurn", fields := [.role, .content], name := TurnField.name
    read := fun
      | .role, t => Json.text.map fun v => { t with role := some v }
      | .content, t => Json.text.map fun v => { t with content := some v } }

/-- What is said in a turn, which must also name its role. -/
def turn : Json.Reader String :=
  Json.record turnShape {} fun _ t =>
    match t.role, t.content with
    | some _, some content => .ok content
    | none, _ => .error (.missingField "role")
    | _, none => .error (.missingField "content")

def choiceShape : Json.Shape Unit (Option String) :=
  { expected := "struct CompletionChoice", fields := [()], name := fun _ => "message"
    read := fun _ _ => turn.map some }

/-- What is said in a choice. -/
def choice : Json.Reader String :=
  Json.record choiceShape none fun _ message =>
    match message with
    | some content => .ok content
    | none => .error (.missingField "message")

def answerShape : Json.Shape Unit (List String) :=
  { expected := "struct CompletionResponse", fields := [()], name := fun _ => "choices"
    read := fun _ _ => Json.list choice }

/-- The choices of an answer; one that names none has none. -/
def answer : Json.Reader (List String) := Json.record answerShape [] fun _ choices => .ok choices

/-- The reply in what a server answered. -/
def Client.read (c : Client) (reply : Reply) : Except Fault String :=
  if 200 ≤ reply.status ∧ reply.status < 300 then
    match answer.parse reply.body.toList with
    | .error _ => .error (.remote "error decoding response body")
    | .ok (content :: _) => .ok content
    | .ok [] => .error (.collaborator "assistant" "completion had no choices")
  else
    let line := Web.statusLine reply.status
    .error (.collaborator "assistant" s!"{c.endpoint} returned {line}: {reply.body}")

/-- The reply to a prompt. -/
def Client.complete (c : Client) (transport : Transport) (prompt : String) :
    Except Fault String :=
  match transport (c.request prompt) with
  | .ok reply => c.read reply
  | .error reason => .error (.remote reason)

end Switchboard.Completion
