import Switchboard.Text.Blank
import Switchboard.Text.Digit
import Switchboard.Text.Utf8

/-!
# Queries

A query is a list of named values between ampersands. In names and values a plus sign stands for a
space and a percent sign with two hexadecimal digits for an octet; what is then no text is read as
far as it can be.
-/

namespace Switchboard.Web

/-- The pairs of a query, in order. -/
abbrev Query := List (String × String)

namespace Query

/-- The octets that two digits after each percent sign stand for; a percent sign without digits
stands for itself. -/
def unescape : Bytes → Bytes
  | [] => []
  | [a] => [a]
  | [a, b] => [a, b]
  | percent :: a :: b :: rest =>
    if percent = 0x25 then
      match Text.digit? 16 (Char.ofUInt8 a), Text.digit? 16 (Char.ofUInt8 b) with
      | some high, some low => UInt8.ofNat (16 * high + low) :: unescape rest
      | _, _ => percent :: unescape (a :: b :: rest)
    else percent :: unescape (a :: b :: rest)

/-- The text that a part of a query stands for. -/
def decodePart (cs : List Char) : String :=
  let spaced := cs.map fun c => if c = '+' then ' ' else c
  Utf8.decodeLossy (unescape (Utf8.octets (String.ofList spaced)))

/-- The name and the value of one part: what is before the first equals sign, and what is after. -/
def pair (cs : List Char) : String × String :=
  (decodePart (cs.takeWhile (· ≠ '=')), decodePart ((cs.dropWhile (· ≠ '=')).drop 1))

def parse (query : List Char) : Query :=
  ((Text.splitOn '&' query).filter (· ≠ [])).map pair

/-- The last value of a name. -/
def last? (q : Query) (name : String) : Option String :=
  (q.filter (·.1 = name)).getLast?.map Prod.snd

/-- The value of a name that may be given once. -/
def single (q : Query) (name : String) : Option (Option String) :=
  match q.filter (·.1 = name) with
  | [] => some none
  | [(_, value)] => some (some value)
  | _ => none

/-- The number of thirty-two bits that a text is. -/
def number? (text : String) : Option Nat :=
  let digits :=
    match text.toList with
    | '+' :: rest => rest
    | cs => cs
  if digits ≠ [] ∧ digits.all Char.isDigit then
    let n := Text.number 10 digits
    if n < UInt32.size then some n else none
  else none

/-- The number with a name that may be given once, or what it is otherwise. -/
def count (q : Query) (name : String) (otherwise : Nat) : Option Nat :=
  match q.single name with
  | none => none
  | some none => some otherwise
  | some (some value) => number? value

end Query

end Switchboard.Web
