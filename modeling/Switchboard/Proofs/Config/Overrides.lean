import Switchboard.Config.Overrides
import Switchboard.Proofs.Config.Address

/-!
# The layer of the environment

The variables of the environment lie over a configuration. What they come to is told by `listenAddress`
for the address, by `withServices` for the texts and by `brokerFlag` for the flag, and one lemma has all
ways in which putting them in can end (`applied_iff`).

An address that was put together is taken apart again the same way, so that putting the variables in
twice does no more than once (`layered`), and what a configuration is checked for is not among what
they touch. Address and port are put together as they should be but for two things: a port in
`SERVER_ADDR` that is not told from the host, and a plus sign (`isAddress_iff_of_applied`).
-/

namespace Switchboard.Config

variable {env : Environment} {c c' : Config} {address port : Option String} {current text : String}
  {fault : ConfigFault}

/-! ## The listen address -/

/-- The listen address is what it was, or the address of the environment, or put together of a host
and a port. -/
theorem listenAddress_eq (current : String) (address port : Option String) :
    listenAddress current address port =
      if address = none ∧ port = none then .ok current
      else if port = none ∧ ∃ a ∈ address, (SocketAddress.parse? a).isSome then
        .ok (address.getD current)
      else
        let parts := (Address.splitPort current).getD (current, defaultPort)
        let newPort := port.getD parts.2
        if Address.isPort newPort then .ok (Address.join (address.getD parts.1) newPort)
        else .error (.invalidValue "SERVER_PORT" s!"{Text.quote newPort} is not a port") := by
  cases address with
  | none =>
      cases port with
      | none => rfl
      | some port => rfl
  | some address =>
      cases port with
      | some port => rfl
      | none =>
          cases hparse : (SocketAddress.parse? address).isSome with
          | true => simp [listenAddress, hparse]
          | false => simp [listenAddress, hparse, Address.join]

/-- A value that is given counts, however often. -/
theorem getD_getD (value : Option String) (otherwise : String) :
    value.getD (value.getD otherwise) = value.getD otherwise := by
  cases value with
  | none => rfl
  | some value => rfl

/-- What an address that was put together is taken apart to puts it together again. -/
theorem listenAddress_listenAddress (h : listenAddress current address port = .ok text) :
    listenAddress text address port = .ok text := by
  rw [listenAddress_eq] at h ⊢
  by_cases hunset : address = none ∧ port = none
  · rw [if_pos hunset]
  · rw [if_neg hunset] at h ⊢
    by_cases hwhole : port = none ∧ ∃ a ∈ address, (SocketAddress.parse? a).isSome
    · rw [if_pos hwhole] at h ⊢
      obtain ⟨-, a, haddress, -⟩ := hwhole
      rw [haddress] at h ⊢
      exact h
    · rw [if_neg hwhole] at h ⊢
      obtain ⟨⟨host, old⟩, hparts⟩ :
        ∃ parts, parts = (Address.splitPort current).getD (current, defaultPort) := ⟨_, rfl⟩
      rw [← hparts] at h
      dsimp only at h
      split at h
      · next hport =>
          obtain rfl := Except.ok.inj h
          rw [Address.splitPort_join (Address.no_colon_of_isPort hport), Option.getD_some]
          dsimp only
          rw [getD_getD, getD_getD, if_pos hport]
      · cases h

/-- A port that is refused is refused by its name. -/
theorem listenAddress_error (h : listenAddress current address port = .error fault) :
    ∃ message, fault = .invalidValue "SERVER_PORT" message := by
  rw [listenAddress_eq] at h
  split at h
  · cases h
  · split at h
    · cases h
    · dsimp only at h
      split at h
      · cases h
      · exact ⟨_, (Except.error.inj h).symm⟩

/-! ## All variables -/

/-- A flag that is refused is refused by its name. -/
theorem brokerFlag_error (h : brokerFlag env c = .error fault) :
    ∃ text message, env "BROKER_ENABLED" = some text ∧
      fault = .invalidValue "BROKER_ENABLED" message := by
  rw [brokerFlag] at h
  split at h
  · cases h
  · next text htext =>
      split at h
      · cases h
      · exact ⟨text, _, htext, (Except.error.inj h).symm⟩

/-- The flag does not depend on what the other variables put in. -/
theorem applyOverrides_eq (env : Environment) (c : Config) : applyOverrides env c =
    match listenAddress c.server.bindAddress (given env "SERVER_ADDR") (given env "SERVER_PORT") with
    | .error fault => (c, some fault)
    | .ok address =>
      let layered := withServices env { c with server.bindAddress := address }
      match brokerFlag env c with
      | .error fault => (layered, some fault)
      | .ok enabled => ({ layered with broker.enabled := enabled }, none) := rfl

/-- A configuration that all variables were put into. -/
theorem applied_iff : applyOverrides env c = (c', none) ↔
    ∃ address enabled, listenAddress c.server.bindAddress (given env "SERVER_ADDR")
        (given env "SERVER_PORT") = .ok address ∧ brokerFlag env c = .ok enabled ∧
      c' = { withServices env { c with server.bindAddress := address } with
        broker.enabled := enabled } := by
  rw [applyOverrides_eq]
  constructor
  · intro h
    split at h
    · cases h
    · next address haddress =>
        dsimp only at h
        split at h
        · cases h
        · next enabled henabled =>
            exact ⟨address, enabled, haddress, henabled, (Prod.mk.inj h).1.symm⟩
  · rintro ⟨address, enabled, haddress, hflag, rfl⟩
    rw [haddress, hflag]

/-- **What is refused is a port or a flag.** A port is refused before anything was put in, a flag after
everything else was. -/
theorem refused_cases (h : applyOverrides env c = (c', some fault)) :
    (∃ message, fault = .invalidValue "SERVER_PORT" message ∧ c' = c) ∨
    ∃ text message address, env "BROKER_ENABLED" = some text ∧
      fault = .invalidValue "BROKER_ENABLED" message ∧
      listenAddress c.server.bindAddress (given env "SERVER_ADDR") (given env "SERVER_PORT")
        = .ok address ∧ c' = withServices env { c with server.bindAddress := address } := by
  rw [applyOverrides_eq] at h
  split at h
  · next fault' haddress =>
      -- the address comes first, so nothing else was put in
      obtain ⟨message, rfl⟩ := listenAddress_error haddress
      obtain ⟨rfl, hfault⟩ := Prod.mk.inj h
      exact Or.inl ⟨message, (Option.some.inj hfault).symm, rfl⟩
  · next address haddress =>
      dsimp only at h
      split at h
      · next fault' hflag =>
          obtain ⟨text, message, htext, rfl⟩ := brokerFlag_error hflag
          obtain ⟨rfl, hfault⟩ := Prod.mk.inj h
          exact Or.inr ⟨text, message, address, htext, (Option.some.inj hfault).symm, haddress, rfl⟩
      · cases h

/-- The environment without a variable. -/
def unset (env : Environment) (name : String) : Environment := fun other =>
  if other = name then none else env other

/-- Another variable that is unset makes no difference. -/
theorem given_unset {name other : String} (h : other ≠ name) :
    given (unset env name) other = given env other := by
  rw [given, given, unset, if_neg h]

/-- The configuration that a source has, whether or not the environment can be put into it. -/
def Source.config : Source → Except ConfigFault Config
  | .absent => .ok {}
  | .missing => .error .unreadable
  | .file text => ofFile text

theorem load_eq (source : Source) (env : Environment) : load source env =
    match source.config with
    | .error fault => .error fault
    | .ok c =>
      match applyOverrides env c with
      | (_, some fault) => .error fault
      | (c, none) => c.checked := rfl

/-- A configuration that a source has is one that the exchange can run with. -/
theorem check_of_config {source : Source} (h : source.config = .ok c) : c.check = .ok () := by
  cases source with
  | absent =>
      obtain rfl := Except.ok.inj h
      -- the defaults pass their own check
      decide
  | missing => cases h
  | file text =>
      rw [Source.config, ofFile] at h
      split at h
      · next c₀ hread =>
          rw [checked] at h
          split at h
          · next hcheck => exact Except.ok.inj h ▸ hcheck
          · cases h
      · cases h

/-- What the variables touch is not checked. -/
theorem check_of_applied (h : applyOverrides env c = (c', none)) : c'.check = c.check := by
  obtain ⟨address, enabled, -, -, rfl⟩ := applied_iff.1 h
  rfl

/-- A flag that was put in is there when the variable is not set, and else is read again. -/
theorem brokerFlag_again {enabled : Bool} (h : brokerFlag env c = .ok enabled)
    (hthere : c'.broker.enabled = enabled) : brokerFlag env c' = .ok enabled := by
  rw [brokerFlag] at h ⊢
  cases htext : env "BROKER_ENABLED" with
  | none => exact congrArg Except.ok hthere
  | some text =>
      rw [htext] at h
      exact h

theorem or_or (value otherwise : Option String) :
    value.or (value.or otherwise) = value.or otherwise := by
  rw [← Option.or_assoc, Option.or_self]

/-- To put the variables in again does nothing. -/
theorem applied_again (h : applyOverrides env c = (c', none)) :
    applyOverrides env c' = (c', none) := by
  obtain ⟨address, enabled, haddress, hflag, rfl⟩ := applied_iff.1 h
  refine applied_iff.2
    ⟨address, enabled, listenAddress_listenAddress haddress, brokerFlag_again hflag rfl, ?_⟩
  simp only [withServices, or_or, getD_getD]

/-- **The environment is a layer over a configuration.** If all variables can be put in, nothing
changes but five settings. The database, the key and the base URL are those of the environment where it
gives some, and else stay; what the configuration is checked for stays, so that the check finds what it
found before; and to put the variables in again does nothing. If one is refused, it is the port or the
flag: with the port nothing was put in, and with the flag all that would be without it. So whatever the
file says and whatever the variables are, an exchange that read its file and put the variables in never
finds its configuration at fault afterwards. -/
theorem layered (env : Environment) :
    (∀ c c', applyOverrides env c = (c', none) →
      c' = { c with
        server.bindAddress := c'.server.bindAddress
        database.url := (given env "DATABASE_URL").or c.database.url
        assistant.apiKey := (given env "ASSISTANT_API_KEY").or c.assistant.apiKey
        assistant.baseUrl := (given env "ASSISTANT_BASE_URL").getD c.assistant.baseUrl
        broker.enabled := c'.broker.enabled } ∧
      c'.check = c.check ∧ applyOverrides env c' = (c', none)) ∧
    (∀ c c' fault, applyOverrides env c = (c', some fault) →
      (∃ message, fault = .invalidValue "SERVER_PORT" message ∧ c' = c) ∨
      ∃ message, fault = .invalidValue "BROKER_ENABLED" message ∧
        applyOverrides (unset env "BROKER_ENABLED") c = (c', none)) ∧
    ∀ source c, source.config = .ok c → ∀ c',
      (applyOverrides env c = (c', none) → c'.check = .ok () ∧ load source env = .ok c') ∧
      ∀ fault, applyOverrides env c = (c', some fault) → load source env = .error fault := by
  refine ⟨fun c c' h => ⟨?_, check_of_applied h, applied_again h⟩, fun c c' fault h => ?_,
    fun source c hsource c' => ⟨fun h => ?_, fun fault h => ?_⟩⟩
  · obtain ⟨address, enabled, -, -, rfl⟩ := applied_iff.1 h
    rfl
  · rcases refused_cases h with hport | ⟨text, message, address, -, rfl, haddress, rfl⟩
    · exact Or.inl hport
    · refine Or.inr ⟨message, rfl, applied_iff.2 ⟨address, c.broker.enabled, ?_, ?_, ?_⟩⟩
      · rw [given_unset (by decide), given_unset (by decide)]
        exact haddress
      · -- without the variable the flag is the one that is there
        rw [brokerFlag, unset, if_pos rfl]
      · simp only [withServices, given_unset (by decide : "DATABASE_URL" ≠ "BROKER_ENABLED"),
          given_unset (by decide : "ASSISTANT_API_KEY" ≠ "BROKER_ENABLED"),
          given_unset (by decide : "ASSISTANT_BASE_URL" ≠ "BROKER_ENABLED")]
  · have hcheck : c'.check = .ok () := (check_of_applied h).trans (check_of_config hsource)
    refine ⟨hcheck, ?_⟩
    rw [load_eq, hsource]
    dsimp only
    rw [h]
    dsimp only
    rw [checked, hcheck]
  · rw [load_eq, hsource]
    dsimp only
    rw [h]

/-- A port, a database and a flag for a configuration file, and a base URL that is empty. -/
def someVariables (flag : String) : Environment
  | "SERVER_PORT" => some "9000"
  | "DATABASE_URL" => some "postgres://db"
  | "ASSISTANT_BASE_URL" => some ""
  | "BROKER_ENABLED" => some flag
  | _ => none

def someFile : String := "[server]\nbind_addr = \"[::1]:3000\"\n"

theorem layered_file : ∃ c c' fault, (Source.file someFile).config = .ok c ∧
    applyOverrides (someVariables " Yes ") c = ({ c' with broker.enabled := true }, none) ∧
    c'.server.bindAddress = "[::1]:9000" ∧ c'.database.url = some "postgres://db" ∧
    load (.file someFile) (someVariables " Yes ") = .ok { c' with broker.enabled := true } ∧
    applyOverrides (someVariables "perhaps") c = (c', some fault) ∧
    applyOverrides (unset (someVariables "perhaps") "BROKER_ENABLED") c = (c', none) := by
  obtain ⟨-, -, hload⟩ := layered (someVariables " Yes ")
  obtain ⟨-, hrefused, -⟩ := layered (someVariables "perhaps")
  let c : Config := { server.bindAddress := "[::1]:3000" }
  let c' : Config := { server.bindAddress := "[::1]:9000", database.url := some "postgres://db" }
  let fault : ConfigFault := .invalidValue "BROKER_ENABLED" "\"perhaps\" is not a boolean"
  have hfile : (Source.file someFile).config = .ok c := by decide +kernel
  have happlied : applyOverrides (someVariables " Yes ") c
      = ({ c' with broker.enabled := true }, none) := by decide +kernel
  have hflag : applyOverrides (someVariables "perhaps") c = (c', some fault) := by decide +kernel
  refine ⟨c, c', fault, hfile, happlied, rfl, rfl, ((hload _ _ hfile _).1 happlied).2, hflag, ?_⟩
  rcases hrefused c c' fault hflag with ⟨message, hfault, -⟩ | ⟨message, -, hunset⟩
  · exact absurd (ConfigFault.invalidValue.inj hfault).1 (by decide)
  · exact hunset

/-! ## Host and port -/

/-- What is written in the address of the environment: a host, with a port or without. -/
def written : String × Option String → String
  | (host, none) => host
  | (host, some port) => Address.join host port

section Address

variable {host oldPort : String} {written? : Option (String × Option String)}

/-- How host and port are put together with those of an address. -/
theorem listenAddress_of_isAddress (hcurrent : Address.IsAddress current host oldPort)
    (h : listenAddress current address port = .ok text) (hset : ¬ (address = none ∧ port = none))
    (hparts : ¬ (port = none ∧ ∃ a ∈ address, (SocketAddress.parse? a).isSome)) :
    Address.isPort (port.getD oldPort) = true ∧
      text = Address.join (address.getD host) (port.getD oldPort) := by
  rw [listenAddress_eq, if_neg hset, if_neg hparts, hcurrent.text_eq,
    Address.splitPort_join hcurrent.isNumber.no_colon] at h
  dsimp only [Option.getD_some] at h
  split at h
  · next hport => exact ⟨hport, (Except.ok.inj h).symm⟩
  · cases h

/-- Without another port, a host gets the old one. With a port of its own it is left alone if it is an
address of the internet, and else gets the old one too. -/
theorem isAddress_iff_of_oldPort (hcurrent : Address.IsAddress current host oldPort)
    (hwell : ∀ a ∈ written?, Address.IsHost a.1 ∧ ∀ p ∈ a.2, Address.IsNumber p)
    (h : listenAddress current (written?.map written) none = .ok text) :
    Address.IsAddress text ((written?.map Prod.fst).getD host)
        ((written?.bind Prod.snd).getD oldPort) ↔
      ∀ h p, written? = some (h, some p) → (SocketAddress.parse? (Address.join h p)).isSome := by
  cases written? with
  | none =>
      rw [listenAddress_eq, if_pos ⟨rfl, rfl⟩] at h
      obtain rfl := Except.ok.inj h
      exact iff_of_true hcurrent nofun
  | some a =>
      obtain ⟨newHost, inner⟩ := a
      obtain ⟨hhost, hinner⟩ := hwell _ rfl
      cases inner with
      | none =>
          -- a host is no address of the internet by itself
          have hparse : ¬ ∃ a ∈ some newHost, (SocketAddress.parse? a).isSome := by
            rintro ⟨a, ha, hparse⟩
            rw [← Option.mem_some.1 ha, hhost.parse?_eq_none] at hparse
            cases hparse
          obtain ⟨-, rfl⟩ := listenAddress_of_isAddress hcurrent h (fun h => nomatch h.1)
            fun h => hparse h.2
          exact iff_of_true ⟨hhost, hcurrent.isNumber, rfl⟩ nofun
      | some inner =>
          have hnumber := hinner inner rfl
          by_cases hparse : (SocketAddress.parse? (Address.join newHost inner)).isSome
          · rw [listenAddress_eq, if_neg (fun h => nomatch h.1),
              if_pos ⟨rfl, _, rfl, hparse⟩] at h
            obtain rfl := Except.ok.inj h
            refine iff_of_true ⟨hhost, hnumber, rfl⟩ fun h p heq => ?_
            obtain ⟨rfl, hp⟩ := Prod.mk.inj (Option.some.inj heq)
            obtain rfl := Option.some.inj hp
            exact hparse
          · have hnone : ¬ ∃ a ∈ some (Address.join newHost inner),
                (SocketAddress.parse? a).isSome := by
              rintro ⟨a, ha, h⟩
              rw [← Option.mem_some.1 ha] at h
              exact hparse h
            obtain ⟨-, rfl⟩ := listenAddress_of_isAddress hcurrent h (fun h => nomatch h.1)
              fun h => hnone h.2
            refine iff_of_false (fun haddress => ?_) fun h => hparse (h _ _ rfl)
            -- the host would have the port in it
            have hparts := (Address.join_inj hcurrent.isNumber.no_colon hnumber.no_colon).1
              haddress.text_eq
            exact Address.join_ne_self newHost inner hparts.1

/-- Another port is put to the host, unless that has a port already. -/
theorem isAddress_iff_of_newPort {newPort : String}
    (hcurrent : Address.IsAddress current host oldPort)
    (hwell : ∀ a ∈ written?, Address.IsHost a.1)
    (h : listenAddress current (written?.map written) (some newPort) = .ok text) :
    Address.IsAddress text ((written?.map Prod.fst).getD host) newPort ↔
      newPort.toList.head? ≠ some '+' ∧ written?.bind Prod.snd = none := by
  obtain ⟨hport, rfl⟩ := listenAddress_of_isAddress hcurrent h (fun h => nomatch h.2)
    fun h => nomatch h.1
  cases written? with
  | none =>
      refine Iff.trans ?_ (and_iff_left rfl).symm
      exact Address.isAddress_join_iff hcurrent.isHost hport
  | some a =>
      obtain ⟨newHost, inner⟩ := a
      cases inner with
      | none =>
          refine Iff.trans ?_ (and_iff_left rfl).symm
          exact Address.isAddress_join_iff (hwell _ rfl) hport
      | some inner =>
          -- the host would have the inner port in it
          refine iff_of_false (fun haddress => ?_) fun h => nomatch h.2
          have hcolon := Address.no_colon_of_isPort hport
          have hparts := (Address.join_inj hcolon hcolon).1 haddress.text_eq
          exact Address.join_ne_self newHost inner hparts.1

/-- **Host and port come from the environment where it gives them, and else stay**: the new address is
a host and a port again, the host that `SERVER_ADDR` gives or the old one, and the port that
`SERVER_PORT` gives, or else the one in `SERVER_ADDR`, or else the old one. This is so just when the
port in `SERVER_PORT` has no plus sign, and the address in `SERVER_ADDR`, if it has a port, is one of
the internet and `SERVER_PORT` is not given. Else the port in `SERVER_ADDR` is taken for a part of the
host. -/
theorem isAddress_iff_of_applied (hcurrent : Address.IsAddress c.server.bindAddress host oldPort)
    (hgiven : given env "SERVER_ADDR" = written?.map written)
    (hwell : ∀ a ∈ written?, Address.IsHost a.1 ∧ ∀ p ∈ a.2, Address.IsNumber p)
    (h : applyOverrides env c = (c', none)) :
    Address.IsAddress c'.server.bindAddress ((written?.map Prod.fst).getD host)
        (((given env "SERVER_PORT").or (written?.bind Prod.snd)).getD oldPort) ↔
      (∀ p, given env "SERVER_PORT" = some p → p.toList.head? ≠ some '+') ∧
      ∀ h p, written? = some (h, some p) →
        given env "SERVER_PORT" = none ∧ (SocketAddress.parse? (Address.join h p)).isSome := by
  obtain ⟨text, enabled, htext, -, rfl⟩ := applied_iff.1 h
  change Address.IsAddress text _ _ ↔ _
  rw [hgiven] at htext
  cases hport : given env "SERVER_PORT" with
  | none =>
      rw [hport] at htext
      rw [Option.none_or, isAddress_iff_of_oldPort hcurrent hwell htext]
      exact ⟨fun h => ⟨nofun, fun host p heq => ⟨rfl, h host p heq⟩⟩,
        fun h host p heq => (h.2 host p heq).2⟩
  | some newPort =>
      rw [hport] at htext
      rw [Option.some_or, Option.getD_some,
        isAddress_iff_of_newPort hcurrent (fun a ha => (hwell a ha).1) htext]
      refine and_congr ⟨fun h p heq => Option.some.inj heq ▸ h, fun h => h _ rfl⟩
        ⟨fun h host p heq => ?_, fun h => ?_⟩
      · rw [heq] at h
        cases h
      · cases written? with
        | none => rfl
        | some a =>
            obtain ⟨newHost, inner⟩ := a
            cases inner with
            | none => rfl
            | some inner => exact nomatch (h _ _ rfl).1

/-- The environment with an address, and perhaps a port. -/
def listening (address : String) (port : Option String) : Environment
  | "SERVER_ADDR" => some address
  | "SERVER_PORT" => port
  | _ => none

theorem isAddress_default : Address.IsAddress ({} : Config).server.bindAddress "0.0.0.0" "3000" :=
  ⟨.plain (by decide) (by decide), by decide +kernel, rfl⟩

/-- An IPv6 address with its port goes before an address that is set. -/
theorem isAddress_iff_of_applied_v6 :
    ∃ c', applyOverrides (listening (Address.join "[::1]" "4000") none) {} = (c', none) ∧
      Address.IsAddress c'.server.bindAddress "[::1]" "4000" := by
  let env := listening (Address.join "[::1]" "4000") none
  let c' : Config := { server.bindAddress := "[::1]:4000" }
  have happlied : applyOverrides env {} = (c', none) := by decide +kernel
  have hport : given env "SERVER_PORT" = none := by decide +kernel
  have hgiven : given env "SERVER_ADDR" = (some ("[::1]", some "4000")).map written := by
    decide +kernel
  have hnumber : Address.IsNumber "4000" := by decide +kernel
  have hwell : ∀ a ∈ some ("[::1]", some "4000"),
      Address.IsHost a.1 ∧ ∀ p ∈ a.2, Address.IsNumber p := by
    intro a ha
    obtain rfl := Option.mem_some.1 ha
    exact ⟨.bracketed "::1", fun p hp => Option.mem_some.1 hp ▸ hnumber⟩
  have hiff := isAddress_iff_of_applied isAddress_default hgiven hwell happlied
  rw [hport] at hiff
  refine ⟨c', happlied, hiff.2 ⟨nofun, fun host port heq => ?_⟩⟩
  obtain ⟨rfl, hinner⟩ := Prod.mk.inj (Option.some.inj heq)
  obtain rfl := Option.some.inj hinner
  exact ⟨rfl, by decide +kernel⟩

/-- **An address with a port of its own and another port make no address.** -/
theorem not_isAddress_of_two_ports :
    Address.IsHost "127.0.0.1" ∧ Address.IsNumber "4000" ∧ Address.IsNumber "9000" ∧
    ∃ c', applyOverrides (listening (Address.join "127.0.0.1" "4000") (some "9000")) {}
        = (c', none) ∧
      c'.server.bindAddress = "127.0.0.1:4000:9000" ∧
      ¬ ∃ host port, Address.IsAddress c'.server.bindAddress host port := by
  refine ⟨.plain (by decide) (by decide), by decide +kernel, by decide +kernel,
    { server.bindAddress := "127.0.0.1:4000:9000" }, by decide +kernel, rfl, ?_⟩
  rintro ⟨host, port, haddress⟩
  have hsplit : Address.splitPort "127.0.0.1:4000:9000" = some (host, port) :=
    (congrArg Address.splitPort haddress.text_eq).trans
      (Address.splitPort_join haddress.isNumber.no_colon)
  have hhost : "127.0.0.1:4000" = host := by
    have hparts : Address.splitPort "127.0.0.1:4000:9000" = some ("127.0.0.1:4000", "9000") := by
      decide +kernel
    exact (Prod.mk.inj (Option.some.inj (hparts.symm.trans hsplit))).1
  have hfirst := congrArg (fun text : String => text.toList.head?) hhost
  cases haddress.isHost with
  | plain some_char no_colon => exact no_colon (hhost ▸ by decide)
  | bracketed inner =>
      simp [toString, String.toList_append] at hfirst

end Address

end Switchboard.Config
