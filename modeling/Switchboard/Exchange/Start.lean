import Switchboard.Exchange.Monitor
import Switchboard.Service.Completion

/-!
# Starting an exchange

An exchange is put together from its configuration and the services that it is given: a broker with
its consumer if the broker is enabled, and an assistant over the network if it has a key and nobody
else answers prompts.
-/

namespace Switchboard

/-- Services with the broker that the configuration asks for, and the number of its consumer. -/
def Services.withBroker (s : Services) (config : Config) : Option Nat × Services :=
  if config.broker.enabled then
    let (subscriber, broker) := (Broker.new config.broker.capacity).subscribe
    (some subscriber, { s with publishing := .broker broker })
  else (none, s)

/-- Services with the assistant that the configuration asks for. -/
def Services.withAssistant (s : Services) (config : Config) (transport : Completion.Transport) :
    Except Fault Services :=
  if s.assistant.isNone && config.assistant.isEnabled then
    match Completion.Client.ofSettings config.assistant with
    | .ok client =>
      .ok { s with
        assistant := some
          { identity := config.assistant.identity, answer := client.complete transport } }
    | .error fault => .error fault
  else .ok s

/-- How services are shown in a log. -/
def Services.summary (s : Services) : String :=
  let hasBroker :=
    match s.publishing with
    | .off => false
    | _ => true
  let assistant :=
    match s.assistant with
    | some a => s!"Some({Text.quote a.identity})"
    | none => "None"
  s!"Services \x7b broker: {hasBroker}, assistant: {assistant}, .. \x7d"

namespace Exchange

/-- An exchange around services. -/
def start (config : Config) (services : Services) (transport : Completion.Transport)
    (now : Moment) : Except Fault Exchange :=
  let (consumer, services) := services.withBroker config
  match services.withAssistant config transport with
  | .ok services => .ok { Exchange.new config services now with pool.consumer := consumer }
  | .error fault => .error fault

/-- An exchange that keeps everything in memory, if it can run with its configuration. -/
def ofConfig (config : Config) (transport : Completion.Transport) (now : Moment) :
    Except Fault Exchange :=
  match config.checked with
  | .error fault => .error (.config fault)
  | .ok config => start config .inMemory transport now

/-- The broker that listeners can subscribe to. -/
def broker? (x : Exchange) : Option Broker :=
  match x.services.publishing with
  | .broker broker => some broker
  | _ => none

/-- How many listen to what is published, if there is a broker. -/
def listenerCount (x : Exchange) : Option Nat := x.broker?.map Broker.subscriberCount

/-- Somebody who listens to everything that is published, if there is a broker. -/
def subscribe (x : Exchange) : Option (Nat × Exchange) :=
  x.broker?.map fun broker =>
    let (subscriber, broker) := broker.subscribe
    (subscriber, { x with services.publishing := .broker broker })

/-- Somebody stops listening. -/
def unsubscribe (x : Exchange) (subscriber : Nat) : Exchange :=
  match x.broker? with
  | some broker => { x with services.publishing := .broker (broker.unsubscribe subscriber) }
  | none => x

/-- Everything that a subscriber can read now. -/
def readEvents (x : Exchange) (subscriber : Nat) : List Broker.Reading × Exchange :=
  match x.broker? with
  | some broker =>
    let (readings, broker) := broker.drain subscriber
    (readings, { x with services.publishing := .broker broker })
  | none => ([], x)

/-- How an exchange is shown in a log. -/
def summary (x : Exchange) : String :=
  let hasBroker := x.broker?.isSome
  let pool := s!"services: {x.services.summary}, shut_down: {x.pool.isShutDown}, .."
  s!"AppState \x7b pool: ShardPool \x7b {pool} \x7d, broker: {hasBroker}, .. \x7d"

end Exchange

end Switchboard
