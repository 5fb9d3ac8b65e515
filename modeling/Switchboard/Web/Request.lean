import Switchboard.Web.MediaType
import Switchboard.Web.Query

/-!
# Requests

What a client asks over the web, and whether it asks for a socket the way it should.
-/

namespace Switchboard.Web

structure Request where
  method : String
  /-- Path and query, perhaps behind a scheme and a server. -/
  target : String
  headers : List (String × String)
  body : String
  /-- Whether the connection can become a socket. -/
  canUpgrade : Bool

/-- Why a request for a socket is none. -/
inductive UpgradeFault
  | method
  /-- A header is missing or wrong. -/
  | header
  /-- The connection cannot become a socket. -/
  | connection
  deriving DecidableEq, Repr

def UpgradeFault.status : UpgradeFault → Nat
  | method => 405
  | header => 400
  | connection => 426

namespace Request

/-- Whether a character may stand in the name of a scheme. -/
def isSchemeChar (c : Char) : Bool := c.isAlphanum || "+-.".toList.contains c

/-- A target without the scheme and the server that it may start with. The path is never empty behind
a server. -/
def withoutServer (target : List Char) : List Char :=
  match target.dropWhile isSchemeChar with
  | ':' :: '/' :: '/' :: rest =>
    match rest.dropWhile fun c => c ≠ '/' && c ≠ '?' with
    | '/' :: located => '/' :: located
    | located => '/' :: located
  | _ => target

/-- Path and query, without what only the client uses. -/
def sent (r : Request) : List Char := withoutServer (r.target.toList.takeWhile (· ≠ '#'))

def path (r : Request) : String := String.ofList (r.sent.takeWhile (· ≠ '?'))

def query (r : Request) : Query := Query.parse ((r.sent.dropWhile (· ≠ '?')).drop 1)

/-- The value of a header, in whatever case its name is written. -/
def header? (r : Request) (name : String) : Option String :=
  (r.headers.find? fun (n, _) => Text.lowerAscii n = name).map Prod.snd

/-- Whether a header has a value, in whatever case. -/
def headerIs (r : Request) (name value : String) : Bool :=
  (r.header? name).map Text.lowerAscii = some value

/-- Whether a list of characters occurs in another. -/
def occursIn (part : List Char) : List Char → Bool
  | [] => part.isEmpty
  | c :: cs => part.isPrefixOf (c :: cs) || occursIn part cs

/-- Whether a header mentions a word, in whatever case. -/
def headerMentions (r : Request) (name word : String) : Bool :=
  match r.header? name with
  | some value => occursIn word.toList (Text.lowerAscii value).toList
  | none => false

/-- What is wrong with a request for a socket. -/
def upgradeFault? (r : Request) : Option UpgradeFault :=
  if r.method ≠ "GET" then some .method
  else if r.headerMentions "connection" "upgrade" && r.headerIs "upgrade" "websocket"
      && (r.header? "sec-websocket-key").isSome && r.headerIs "sec-websocket-version" "13" then
    if r.canUpgrade then none else some .connection
  else some .header

/-- Whether the body is said to be JSON. -/
def hasJson (r : Request) : Bool :=
  match (r.header? "content-type").bind MediaType.parse? with
  | some m => m.isJson
  | none => false

end Request

end Switchboard.Web
