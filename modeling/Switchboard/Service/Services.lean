import Switchboard.Fault
import Switchboard.Service.Broker
import Switchboard.Service.Groups
import Switchboard.Service.Offline

/-!
# The services around the exchange

Presence, the store for those who are away, the groups, and, if there are any, a broker and an
assistant. A service may be out: then a call of it fails, or breaks off whatever called it.
-/

namespace Switchboard

/-- Why something was not done. -/
inductive Stop
  /-- It failed, and the caller may go on. -/
  | fault (fault : Fault)
  /-- It broke off, and so does whatever called it. -/
  | crash
  deriving DecidableEq, Repr

/-- The calls a service can fail at. -/
inductive ServiceCall
  | setOnline | setOffline | isOnline
  | persist | listUnread | markRead
  | membersOf
  | complete
  deriving DecidableEq, Repr

namespace ServiceCall

def all : List ServiceCall :=
  [setOnline, setOffline, isOnline, persist, listUnread, markRead, membersOf, complete]

/-- How a call is named. -/
def name : ServiceCall → String
  | setOnline => "set_online"
  | setOffline => "set_offline"
  | isOnline => "is_online"
  | persist => "persist"
  | listUnread => "list_unread"
  | markRead => "mark_read"
  | membersOf => "members_of"
  | complete => "complete"

/-- The call with a name. -/
def ofName? (name : String) : Option ServiceCall := all.find? fun c => c.name = name

end ServiceCall

/-- What the service behind a call is called. -/
def ServiceCall.service : ServiceCall → String
  | setOnline | setOffline | isOnline => "presence"
  | persist | listUnread | markRead => "offline store"
  | membersOf => "groups"
  | complete => "assistant"

/-- What is wrong with a call for the time being. -/
inductive Outage
  | failing (call : ServiceCall) (message : String)
  | crashing (call : ServiceCall)
  /-- Every second call fails. -/
  | flickering (call : ServiceCall) (message : String)
  deriving DecidableEq, Repr

/-- Who answers prompts, and how. -/
structure Assistant where
  identity : String
  answer : String → Except Fault String

/-- How frames and events are published. -/
inductive Publishing
  /-- They are not. -/
  | off
  /-- Nothing that is published is taken. -/
  | refusing
  | broker (broker : Broker)

structure Services where
  presence : Presence
  offline : OfflineStore
  groups : Groups
  publishing : Publishing
  assistant : Option Assistant
  outages : List Outage
  /-- The number of calls that flickered. -/
  flickers : Nat

namespace Services

/-- Services that keep everything in memory, without broker and assistant. -/
def inMemory : Services :=
  { presence := .empty, offline := [], groups := .empty, publishing := .off, assistant := none,
    outages := [], flickers := 0 }

/-- Whether an identity is the assistant's. -/
def isAssistant (s : Services) (identity : String) : Bool :=
  match s.assistant with
  | some assistant => assistant.identity = identity
  | none => false

/-- The failure of a call, if one is due. -/
def failureOf (call : ServiceCall) : List Outage → Option String
  | [] => none
  | .failing c message :: outages => if c = call then some message else failureOf call outages
  | _ :: outages => failureOf call outages

/-- The failure of every second call, if there is such. -/
def flickerOf (call : ServiceCall) : List Outage → Option String
  | [] => none
  | .flickering c message :: outages => if c = call then some message else flickerOf call outages
  | _ :: outages => flickerOf call outages

/-- Whether a call succeeds, and the services after it. -/
def attempt (s : Services) (call : ServiceCall) : Except Stop Unit × Services :=
  if .crashing call ∈ s.outages then (.error .crash, s)
  else
    match failureOf call s.outages, flickerOf call s.outages with
    | some message, _ => (.error (.fault (.collaborator call.service message)), s)
    | none, none => (.ok (), s)
    | none, some message =>
      -- the first such call succeeds
      let s := { s with flickers := s.flickers + 1 }
      if s.flickers % 2 = 0 then (.error (.fault (.collaborator call.service message)), s)
      else (.ok (), s)

/-- A service that is not out does what it is asked. -/
theorem attempt_of_well {s : Services} (h : s.outages = []) (call : ServiceCall) :
    s.attempt call = (.ok (), s) := by
  simp [attempt, h, failureOf, flickerOf]

end Services

end Switchboard
