import Switchboard.Table
import Switchboard.Text.Blank

/-!
# Presence

Who has a connection somewhere, and the events by which that becomes known.
-/

namespace Switchboard

/-- The identities that are online. -/
abbrev Presence := Table String Unit

namespace Presence

def setOnline (p : Presence) (identity : String) : Presence := p.insert identity ()

def setOffline (p : Presence) (identity : String) : Presence := p.erase identity

def isOnline (p : Presence) (identity : String) : Bool := p.contains identity

end Presence

/-- What became of somebody. -/
inductive PresenceKind
  | online | offline
  deriving DecidableEq, Repr

namespace PresenceKind

def name : PresenceKind → String
  | online => "online"
  | offline => "offline"

/-- The kind with a name, in whatever case and with blanks around it. -/
def parse (text : String) : Option PresenceKind :=
  let word := Text.lowerAscii (Text.trim text)
  if word = "online" then some online
  else if word = "offline" then some offline
  else none

/-- The kinds in a list with commas. A list without a known kind asks for all of them. -/
def parseList (text : String) : Option (List PresenceKind) :=
  let kinds := (Text.splitOn ',' text.toList).filterMap fun part => parse (String.ofList part)
  if kinds.isEmpty then none else some kinds

end PresenceKind

/-- Somebody came or went. -/
structure PresenceEvent where
  kind : PresenceKind
  identity : String
  /-- What else is known, by name, in ascending order of the names. -/
  metadata : List (String × String)
  /-- Milliseconds since the epoch. -/
  timestamp : Nat
  deriving DecidableEq, Repr

namespace PresenceEvent

/-- The pairs with one more, which replaces one of its name. -/
def insertPair (key value : String) : List (String × String) → List (String × String)
  | [] => [(key, value)]
  | (k, v) :: pairs =>
    if key < k then (key, value) :: (k, v) :: pairs
    else if key = k then (key, value) :: pairs
    else (k, v) :: insertPair key value pairs

/-- The event with one more thing known. -/
def note (e : PresenceEvent) (key value : String) : PresenceEvent :=
  { e with metadata := insertPair key value e.metadata }

end PresenceEvent

end Switchboard
