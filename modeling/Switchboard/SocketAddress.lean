import Switchboard.Text.Digit

/-!
# Socket addresses

Where a client connects from: an address of the internet and a port. An IPv4 address is four
decimal numbers with dots, an IPv6 address is eight hexadecimal groups with colons, in brackets and
perhaps with a zone. Some addresses of the latter kind can be written in several ways. `parse?`
takes them all, and `render` writes the usual one: lower-case digits without leading zeros, and two
colons for the longest run of zero groups.
-/

namespace Switchboard

inductive SocketAddress
  /-- Four octets and a port. -/
  | v4 (octets : List UInt8) (port : UInt16)
  /-- Eight groups, a zone (zero for none) and a port. -/
  | v6 (groups : List UInt16) (zone : UInt32) (port : UInt16)
  deriving DecidableEq, Repr

namespace SocketAddress

/-! ## Reading -/

/-- What is left of a text. -/
abbrev Rest := List Char

/-- A number at the front of a text, at most `limit`, of at most `width` digits if that is given. -/
def takeNumber (base : Nat) (width : Option Nat) (limit : Nat) (cs : Rest) :
    Option (Nat × Rest) :=
  let digits := cs.takeWhile fun c => (Text.digit? base c).isSome
  let n := Text.number base digits
  if digits.isEmpty ∨ limit < n ∨ width.any (· < digits.length) then none
  else some (n, cs.drop digits.length)

def takeChar (c : Char) : Rest → Option Rest
  | d :: cs => if d = c then some cs else none
  | [] => none

/-- One of the four numbers of an IPv4 address: it has no leading zero. -/
def takeOctet (cs : Rest) : Option (UInt8 × Rest) :=
  match takeNumber 10 (some 3) 255 cs with
  | some (n, rest) =>
    if cs.head? = some '0' ∧ rest.length + 1 < cs.length then none else some (.ofNat n, rest)
  | none => none

/-- The four octets of an IPv4 address. -/
def takeV4 (cs : Rest) : Option (List UInt8 × Rest) := do
  let (a, cs) ← takeOctet cs
  let (b, cs) ← takeOctet (← takeChar '.' cs)
  let (c, cs) ← takeOctet (← takeChar '.' cs)
  let (d, cs) ← takeOctet (← takeChar '.' cs)
  return ([a, b, c, d], cs)

/-- Octets, two to a group. -/
def pairs : List UInt8 → List UInt16
  | a :: b :: rest => (a.toUInt16 * 256 + b.toUInt16) :: pairs rest
  | _ => []

/-- Up to `room` more groups of an IPv6 address after those that are `done`, and whether the last
two are written as an IPv4 address. -/
def takeGroups : (room : Nat) → (done : List UInt16) → Rest → List UInt16 × Bool × Rest
  | 0, done, cs => (done, false, cs)
  | room + 1, done, cs =>
    let inner := if done.isEmpty then some cs else takeChar ':' cs
    match if room = 0 then none else inner.bind takeV4 with
    | some (octets, rest) => (done ++ pairs octets, true, rest)
    | none =>
      match inner.bind (takeNumber 16 (some 4) 0xFFFF) with
      | some (n, rest) => takeGroups room (done ++ [.ofNat n]) rest
      | none => (done, false, cs)

/-- The groups of an IPv6 address: eight, or fewer around one `::`. -/
def takeV6 (cs : Rest) : Option (List UInt16 × Rest) :=
  let (before, isMixed, rest) := takeGroups 8 [] cs
  if before.length = 8 then some (before, rest)
  else if isMixed then none
  else
    match (takeChar ':' rest).bind (takeChar ':') with
    | none => none
    | some rest =>
      let (after, _, rest) := takeGroups (7 - before.length) [] rest
      some (before ++ List.replicate (8 - before.length - after.length) 0 ++ after, rest)

/-- The colon and the port. -/
def takePort (cs : Rest) : Option (UInt16 × Rest) := do
  let (port, cs) ← takeNumber 10 none 65535 (← takeChar ':' cs)
  return (.ofNat port, cs)

def takeV4Socket (cs : Rest) : Option (SocketAddress × Rest) := do
  let (octets, cs) ← takeV4 cs
  let (port, cs) ← takePort cs
  return (.v4 octets port, cs)

/-- The percent sign and the zone, if they are there. -/
def takeZone (cs : Rest) : UInt32 × Rest :=
  match (takeChar '%' cs).bind (takeNumber 10 none (UInt32.size - 1)) with
  | some (zone, cs) => (.ofNat zone, cs)
  | none => (0, cs)

def takeV6Socket (cs : Rest) : Option (SocketAddress × Rest) := do
  let (groups, cs) ← takeV6 (← takeChar '[' cs)
  let (zone, cs) := takeZone cs
  let (port, cs) ← takePort (← takeChar ']' cs)
  return (.v6 groups zone port, cs)

/-- The address that a text is. -/
def parse? (text : String) : Option SocketAddress :=
  match (takeV4Socket text.toList).or (takeV6Socket text.toList) with
  | some (address, []) => some address
  | _ => none

/-! ## Writing -/

def renderV4 (octets : List UInt8) : String :=
  ".".intercalate (octets.map fun n => toString n.toNat)

def renderGroups (groups : List UInt16) : String :=
  ":".intercalate (groups.map fun n => String.ofList (Nat.toDigits 16 n.toNat))

/-- Where the longest run of zero groups begins, the first of several, and how long it is. -/
def zeroRun (groups : List UInt16) : Nat × Nat :=
  (List.range groups.length).foldl (fun best start =>
    let length := ((groups.drop start).takeWhile (· = 0)).length
    if best.2 < length then (start, length) else best) (0, 0)

/-- An IPv6 address. One that stands for an IPv4 address shows it. -/
def renderV6 (groups : List UInt16) : String :=
  match groups with
  | [0, 0, 0, 0, 0, 0xFFFF, a, b] =>
    "::ffff:" ++ renderV4 [(a / 256).toUInt8, a.toUInt8, (b / 256).toUInt8, b.toUInt8]
  | _ =>
    let (start, length) := zeroRun groups
    if 1 < length then
      renderGroups (groups.take start) ++ "::" ++ renderGroups (groups.drop (start + length))
    else renderGroups groups

def render : SocketAddress → String
  | v4 octets port => s!"{renderV4 octets}:{port.toNat}"
  | v6 groups zone port =>
    let zone := if zone = 0 then "" else s!"%{zone.toNat}"
    s!"[{renderV6 groups}{zone}]:{port.toNat}"

end SocketAddress

end Switchboard
