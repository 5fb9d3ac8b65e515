import Mathlib.Data.List.Infix
import Switchboard.Config.Address
import Switchboard.SocketAddress

/-!
# The parts of an address

An address to listen at is written as a host, a colon and a port (`join`), and `splitPort` finds the
parts again, whatever colons the host has (`splitPort_join`). What reads as an address of the internet
with its port ends with a colon and a number (`exists_port_of_parse?`), so no host is one by itself.
-/

namespace Switchboard

namespace Address

/-- A host and a port, as an address is written. -/
def join (host port : String) : String := s!"{host}:{port}"

/-- A port in decimal digits, of at most sixteen bits. -/
structure IsNumber (port : String) : Prop where
  some_digit : port.toList ≠ []
  digits : ∀ c ∈ port.toList, c.isDigit = true
  le : Text.number 10 port.toList ≤ 65535

instance (port : String) : Decidable (IsNumber port) :=
  decidable_of_iff (port.toList ≠ [] ∧ port.toList.all Char.isDigit = true ∧
      Text.number 10 port.toList ≤ 65535)
    ⟨fun h => ⟨h.1, List.all_eq_true.1 h.2.1, h.2.2⟩,
      fun h => ⟨h.some_digit, List.all_eq_true.2 h.digits, h.le⟩⟩

/-- A host: a name or an IPv4 address, which have no colons, or something in brackets, as IPv6
addresses are. -/
inductive IsHost : String → Prop
  | plain {host : String} (some_char : host.toList ≠ []) (no_colon : ':' ∉ host.toList) :
      IsHost host
  | bracketed (inner : String) : IsHost s!"[{inner}]"

/-- A text is a host and a port with a colon between them. -/
structure IsAddress (text host port : String) : Prop where
  isHost : IsHost host
  isNumber : IsNumber port
  text_eq : text = join host port

variable {text host host' port port' : String}

theorem toList_join (host port : String) :
    (join host port).toList = host.toList ++ ':' :: port.toList := by
  simp [join, toString, String.toList_append]

/-! ## Ports -/

theorem not_mem_of_digits {cs : List Char} (h : ∀ c ∈ cs, c.isDigit = true) : ':' ∉ cs :=
  fun hmem => absurd (h ':' hmem) (by decide)

theorem IsNumber.no_colon (h : IsNumber port) : ':' ∉ port.toList := not_mem_of_digits h.digits

/-- What counts as a port without a plus sign in front is a number. -/
theorem isPort_iff (h : port.toList.head? ≠ some '+') : isPort port = true ↔ IsNumber port := by
  have hdigits : isPort port = (!port.toList.isEmpty && port.toList.all Char.isDigit
      && decide (Text.number 10 port.toList ≤ 65535)) := by
    rw [isPort]
    split
    · next digits hplus =>
        rw [hplus] at h
        exact absurd rfl h
    · rfl
  rw [hdigits, Bool.and_eq_true, Bool.and_eq_true, Bool.not_eq_true', List.isEmpty_eq_false_iff,
    List.all_eq_true, decide_eq_true_iff]
  exact ⟨fun h => ⟨h.1.1, h.1.2, h.2⟩, fun h => ⟨⟨h.some_digit, h.digits⟩, h.le⟩⟩

theorem IsNumber.head?_ne (h : IsNumber port) : port.toList.head? ≠ some '+' :=
  fun hplus => absurd (h.digits '+' (List.mem_of_mem_head? hplus)) (by decide)

/-- A port has no colon. -/
theorem no_colon_of_isPort (h : isPort port = true) : ':' ∉ port.toList := by
  rw [isPort] at h
  split at h
  · next digits hplus =>
      rw [Bool.and_eq_true, Bool.and_eq_true, List.all_eq_true] at h
      rw [hplus, List.mem_cons, not_or]
      exact ⟨by decide, not_mem_of_digits h.1.2⟩
  · rw [Bool.and_eq_true, Bool.and_eq_true, List.all_eq_true] at h
    exact not_mem_of_digits h.1.2

/-! ## The last colon -/

/-- **The parts of an address are found again**, since a port has no colon. -/
theorem splitPort_join (h : ':' ∉ port.toList) : splitPort (join host port) = some (host, port) := by
  -- read from behind, the port is what comes before the first colon
  have hport : ((join host port).toList.reverse.takeWhile (· ≠ ':')).reverse = port.toList := by
    rw [toList_join, List.reverse_append, List.reverse_cons, List.append_assoc,
      List.takeWhile_append_of_pos, List.singleton_append, List.takeWhile_cons_of_neg (by simp),
      List.append_nil, List.reverse_reverse]
    intro c hc
    refine decide_eq_true ?_
    rintro rfl
    exact h (List.mem_reverse.1 hc)
  have hlength : (join host port).toList.length = host.toList.length + port.toList.length + 1 := by
    rw [toList_join, List.length_append, List.length_cons, Nat.add_assoc]
  have hhost : (join host port).toList.take
      ((join host port).toList.length - port.toList.length - 1) = host.toList := by
    rw [hlength, toList_join, List.take_left' (by omega)]
  rw [splitPort, hport, if_pos (by omega), hhost, String.ofList_toList, String.ofList_toList]

theorem join_inj (h : ':' ∉ port.toList) (h' : ':' ∉ port'.toList) :
    join host port = join host' port' ↔ host = host' ∧ port = port' := by
  refine ⟨fun heq => ?_, fun ⟨hhost, hport⟩ => hhost ▸ hport ▸ rfl⟩
  have hparts : some (host, port) = some (host', port') := by
    rw [← splitPort_join h, ← splitPort_join h', heq]
  exact Prod.mk.inj (Option.some.inj hparts)

theorem join_ne_self (host port : String) : join host port ≠ host := by
  intro h
  have hlength := congrArg (fun text : String => text.toList.length) h
  simp only [toList_join, List.length_append, List.length_cons] at hlength
  omega

/-- A host and what counts as a port make an address, unless the port has a plus sign. -/
theorem isAddress_join_iff (hhost : IsHost host) (hport : isPort port = true) :
    IsAddress (join host port) host port ↔ port.toList.head? ≠ some '+' :=
  ⟨fun h => h.isNumber.head?_ne, fun h => ⟨hhost, (isPort_iff h).1 hport, rfl⟩⟩

end Address

namespace SocketAddress

/-! ## What an address of the internet ends with -/

variable {cs rest : Rest}

theorem takeChar_eq_some_iff {c : Char} : takeChar c cs = some rest ↔ cs = c :: rest := by
  cases cs with
  | nil => exact iff_of_false nofun nofun
  | cons d cs =>
      rw [takeChar, Option.ite_none_right_eq_some, List.cons_eq_cons, Option.some.injEq]

theorem takeChar_suffix {c : Char} (h : takeChar c cs = some rest) : rest <:+ cs :=
  takeChar_eq_some_iff.1 h ▸ List.suffix_cons c rest

/-- A number is some digits, whose value is within the limit. -/
theorem takeNumber_cases {base limit n : Nat} {width : Option Nat}
    (h : takeNumber base width limit cs = some (n, rest)) : ∃ digits, cs = digits ++ rest ∧
      digits ≠ [] ∧ (∀ c ∈ digits, (Text.digit? base c).isSome = true) ∧
      Text.number base digits ≤ limit := by
  rw [takeNumber, Option.ite_none_left_eq_some] at h
  obtain ⟨hnot, heq⟩ := h
  rw [not_or, not_or, List.isEmpty_iff] at hnot
  obtain ⟨hsome, hle, -⟩ := hnot
  obtain ⟨-, rfl⟩ := Prod.mk.inj (Option.some.inj heq)
  refine ⟨_, ?_, hsome, fun c hc => ?_, Nat.not_lt.1 hle⟩
  · exact (List.prefix_iff_eq_append.1 (List.takeWhile_prefix _)).symm
  · exact List.all_eq_true.1 (List.all_takeWhile ..) c hc

theorem takeNumber_suffix {base limit n : Nat} {width : Option Nat}
    (h : takeNumber base width limit cs = some (n, rest)) : rest <:+ cs := by
  obtain ⟨digits, rfl, -⟩ := takeNumber_cases h
  exact List.suffix_append digits rest

theorem takeOctet_suffix {octet : UInt8} (h : takeOctet cs = some (octet, rest)) : rest <:+ cs := by
  rw [takeOctet] at h
  split at h
  · next n rest' hnumber =>
      rw [Option.ite_none_left_eq_some] at h
      obtain ⟨-, rfl⟩ := Prod.mk.inj (Option.some.inj h.2)
      exact takeNumber_suffix hnumber
  · cases h

theorem takeV4_suffix {octets : List UInt8} (h : takeV4 cs = some (octets, rest)) :
    rest <:+ cs := by
  simp only [takeV4, Option.bind_eq_bind, Option.bind_eq_some_iff] at h
  obtain ⟨a, ha, ca, hca, b, hb, cb, hcb, c, hc, cc, hcc, d, hd, heq⟩ := h
  obtain ⟨-, rfl⟩ := Prod.mk.inj (Option.some.inj heq)
  have hfirst := (takeChar_suffix hca).trans (takeOctet_suffix ha)
  have hsecond := (takeChar_suffix hcb).trans ((takeOctet_suffix hb).trans hfirst)
  have hthird := (takeChar_suffix hcc).trans ((takeOctet_suffix hc).trans hsecond)
  exact (takeOctet_suffix hd).trans hthird

theorem takeGroups_suffix (room : Nat) (done : List UInt16) (cs : Rest) :
    (takeGroups room done cs).2.2 <:+ cs := by
  induction room generalizing done cs with
  | zero => exact List.suffix_refl cs
  | succ room ih =>
      rw [takeGroups]
      have hinner : ∀ inner, (if done.isEmpty then some cs else takeChar ':' cs) = some inner →
          inner <:+ cs := by
        intro inner h
        split at h
        · exact Option.some.inj h ▸ List.suffix_refl cs
        · exact takeChar_suffix h
      split
      · next octets rest hmixed =>
          rw [Option.ite_none_left_eq_some, Option.bind_eq_some_iff] at hmixed
          obtain ⟨-, inner, hin, hv4⟩ := hmixed
          exact (takeV4_suffix hv4).trans (hinner inner hin)
      · split
        · next n rest hnumber =>
            obtain ⟨inner, hin, hn⟩ := Option.bind_eq_some_iff.1 hnumber
            exact (ih _ _).trans ((takeNumber_suffix hn).trans (hinner inner hin))
        · exact List.suffix_refl cs

theorem takeV6_suffix {groups : List UInt16} (h : takeV6 cs = some (groups, rest)) :
    rest <:+ cs := by
  rw [takeV6] at h
  have hbefore := takeGroups_suffix 8 [] cs
  dsimp only at h
  split at h
  · exact (Prod.mk.inj (Option.some.inj h)).2 ▸ hbefore
  · split at h
    · cases h
    · split at h
      · cases h
      · next rest' hcolons =>
          obtain ⟨mid, hmid, hrest'⟩ := Option.bind_eq_some_iff.1 hcolons
          -- the groups behind the double colon, as many as are missing
          have hafter := takeGroups_suffix (7 - (takeGroups 8 [] cs).1.length) [] rest'
          rw [(Prod.mk.inj (Option.some.inj h)).2] at hafter
          exact hafter.trans ((takeChar_suffix hrest').trans ((takeChar_suffix hmid).trans hbefore))

theorem takeZone_suffix (cs : Rest) : (takeZone cs).2 <:+ cs := by
  rw [takeZone]
  split
  · next zone rest hzone =>
      obtain ⟨mid, hmid, hnumber⟩ := Option.bind_eq_some_iff.1 hzone
      exact (takeNumber_suffix hnumber).trans (takeChar_suffix hmid)
  · exact List.suffix_refl cs

/-- A port at the end of a text is a colon and some digits. -/
theorem takePort_cases {port : UInt16} (h : takePort cs = some (port, [])) :
    ∃ digits, cs = ':' :: digits ∧ digits ≠ [] ∧
      ∀ c ∈ digits, (Text.digit? 10 c).isSome = true := by
  simp only [takePort, Option.bind_eq_bind, Option.bind_eq_some_iff] at h
  obtain ⟨mid, hmid, ⟨n, rest⟩, hnumber, heq⟩ := h
  obtain ⟨-, rfl⟩ := Prod.mk.inj (Option.some.inj heq)
  obtain ⟨digits, rfl, hsome, hdigits, -⟩ := takeNumber_cases hnumber
  refine ⟨digits, ?_, hsome, hdigits⟩
  rw [takeChar_eq_some_iff.1 hmid, List.append_nil]

/-- **What reads as an address of the internet ends with a colon and a number.** -/
theorem exists_port_of_parse? {text : String} (h : (parse? text).isSome = true) :
    ∃ host digits, text.toList = host ++ ':' :: digits ∧ digits ≠ [] ∧
      ∀ c ∈ digits, (Text.digit? 10 c).isSome = true := by
  obtain ⟨end', hend, port, hport⟩ : ∃ cs, cs <:+ text.toList ∧
      ∃ port, takePort cs = some (port, []) := by
    rw [parse?] at h
    split at h
    · next address haddress =>
        rcases Option.or_eq_some_iff.1 haddress with hv4 | ⟨-, hv6⟩
        · simp only [takeV4Socket, Option.bind_eq_bind, Option.bind_eq_some_iff] at hv4
          obtain ⟨⟨octets, cs⟩, hv4, ⟨port, rest⟩, hport, heq⟩ := hv4
          obtain ⟨-, rfl⟩ := Prod.mk.inj (Option.some.inj heq)
          exact ⟨cs, takeV4_suffix hv4, port, hport⟩
        · simp only [takeV6Socket, Option.bind_eq_bind, Option.bind_eq_some_iff] at hv6
          obtain ⟨inner, hinner, ⟨groups, cs⟩, hv6, end', hend, ⟨port, rest⟩, hport, heq⟩ := hv6
          obtain ⟨-, rfl⟩ := Prod.mk.inj (Option.some.inj heq)
          -- a bracket, the groups, a zone and a bracket come before the port
          exact ⟨end', (takeChar_suffix hend).trans ((takeZone_suffix cs).trans
            ((takeV6_suffix hv6).trans (takeChar_suffix hinner))), port, hport⟩
    · cases h
  obtain ⟨host, hhost⟩ := hend
  obtain ⟨digits, rfl, hdigits⟩ := takePort_cases hport
  exact ⟨host, digits, hhost.symm, hdigits⟩

end SocketAddress

/-- No host is an address of the internet with a port by itself. -/
theorem Address.IsHost.parse?_eq_none {host : String} (h : Address.IsHost host) :
    SocketAddress.parse? host = none := by
  rw [← Option.not_isSome_iff_eq_none]
  intro hsome
  obtain ⟨before, digits, htext, hdigits, hall⟩ := SocketAddress.exists_port_of_parse? hsome
  cases h with
  | plain some_char no_colon =>
      rw [htext] at no_colon
      exact no_colon (List.mem_append_right _ List.mem_cons_self)
  | bracketed inner =>
      -- the last character is a bracket, where there would have to be a digit
      have hbracket : (s!"[{inner}]").toList = ('[' :: inner.toList) ++ [']'] := by
        simp [toString, String.toList_append]
      have hlast : ']' ∈ digits := by
        have hends : (before ++ ':' :: digits).getLast? = some ']' := by
          rw [← htext, hbracket, List.getLast?_concat]
        rw [List.getLast?_append_cons, List.getLast?_cons_of_ne_nil hdigits] at hends
        exact List.mem_of_getLast? hends
      exact absurd (hall _ hlast) (by decide)

end Switchboard
