import Switchboard.Config.Address
import Switchboard.Config.File
import Switchboard.SocketAddress
import Switchboard.Text.Blank

/-!
# Settings from the environment

Six variables go before the file. Address and port are combined with each other and with what the
file says; a variable that is empty counts as unset, but for the flag, which is always read. A
variable that is no port or no flag is refused, and what came before it stays put in.
-/

namespace Switchboard.Config

/-- The value of every variable that is set. -/
abbrev Environment := String → Option String

/-- The value of a variable that is set and not empty. -/
def given (env : Environment) (name : String) : Option String :=
  (env name).filter (· ≠ "")

/-- What counts when an address names no port. -/
def defaultPort : String := "3000"

/-- The listen address for an address and a port from the environment. -/
def listenAddress (current : String) (address port : Option String) :
    Except ConfigFault String :=
  let isComplete := port.isNone && address.any fun text => (SocketAddress.parse? text).isSome
  match address, port, isComplete with
  | none, none, _ => .ok current
  | some address, _, true => .ok address
  | _, _, _ =>
    let (host, oldPort) := (Address.splitPort current).getD (current, defaultPort)
    let newPort := port.getD oldPort
    if Address.isPort newPort then .ok s!"{address.getD host}:{newPort}"
    else .error (.invalidValue "SERVER_PORT" s!"{Text.quote newPort} is not a port")

/-- What a flag says. -/
def flagValue? (text : String) : Option Bool :=
  let word := Text.lowerAscii (Text.trim text)
  if word ∈ ["1", "true", "yes", "on"] then some true
  else if word ∈ ["0", "false", "no", "off"] then some false
  else none

/-- The database and the assistant from the environment. -/
def withServices (env : Environment) (c : Config) : Config :=
  { c with
    database.url := (given env "DATABASE_URL").or c.database.url
    assistant.apiKey := (given env "ASSISTANT_API_KEY").or c.assistant.apiKey
    assistant.baseUrl := (given env "ASSISTANT_BASE_URL").getD c.assistant.baseUrl }

/-- The broker's flag from the environment. -/
def brokerFlag (env : Environment) (c : Config) : Except ConfigFault Bool :=
  match env "BROKER_ENABLED" with
  | none => .ok c.broker.enabled
  | some text =>
    match flagValue? text with
    | some enabled => .ok enabled
    | none => .error (.invalidValue "BROKER_ENABLED" s!"{Text.quote text} is not a boolean")

/-- Puts the variables into a configuration: what has come of it, and the variable that was
refused. -/
def applyOverrides (env : Environment) (c : Config) : Config × Option ConfigFault :=
  match listenAddress c.server.bindAddress (given env "SERVER_ADDR") (given env "SERVER_PORT") with
  | .error fault => (c, some fault)
  | .ok address =>
    let c := withServices env { c with server.bindAddress := address }
    match brokerFlag env c with
    | .error fault => (c, some fault)
    | .ok enabled => ({ c with broker.enabled := enabled }, none)

/-- Where the file of an exchange is found. -/
inductive Source
  /-- There is none. -/
  | absent
  /-- It is named, but cannot be read. -/
  | missing
  | file (text : String)

/-- The file that counts: the one the environment names, else the one in the working directory. -/
def Source.choose (named : Option Source) (beside : Option String) : Source :=
  match named, beside with
  | some source, _ => source
  | none, some text => .file text
  | none, none => .absent

/-- The configuration an exchange starts with. -/
def load (source : Source) (env : Environment) : Except ConfigFault Config :=
  let base : Except ConfigFault Config :=
    match source with
    | .absent => .ok {}
    | .missing => .error .unreadable
    | .file text => ofFile text
  match base with
  | .error fault => .error fault
  | .ok c =>
    match applyOverrides env c with
    | (_, some fault) => .error fault
    | (c, none) => c.checked

end Switchboard.Config
