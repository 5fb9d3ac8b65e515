/-!
# Media types

What a body is: a type and a subtype, both tokens, with parameters after semicolons. A subtype may
end in a suffix that names the form it is built on. The parameters must be well formed but mean
nothing here.
-/

namespace Switchboard.Web

structure MediaType where
  type : String
  /-- The subtype without its suffix. -/
  subtype : String
  /-- What comes after the last plus sign of the subtype. -/
  suffix : Option String
  deriving DecidableEq, Repr

namespace MediaType

/-- Whether a character may stand in a token. -/
def isTokenChar (c : Char) : Bool :=
  c.isAlphanum || "!#$%&'*+-.^_|~".toList.contains c || c.toNat = 0x60

/-- Whether a character may stand between quotes. -/
def isQuotedChar (c : Char) : Bool := 31 < c.toNat && c.toNat < 127

mutual

/-- Whether parameters are well formed, from the front of one on. -/
def areParameters : (start : Bool) → List Char → Bool
  | start, [] => start
  | start, c :: cs =>
    if start && c = ' ' then areParameters true cs
    else if isTokenChar c then areParameters false cs
    else if !start && c = '=' then isValue true cs
    else false

/-- Whether parameters are well formed from a value on. -/
def isValue : (start : Bool) → List Char → Bool
  | _, [] => true
  | start, c :: cs =>
    if start && c = '"' then isQuoted true cs
    else if isTokenChar c then isValue false cs
    else if !start && c = ';' then areParameters true cs
    else false

/-- Whether parameters are well formed from the inside of a quoted value on. -/
def isQuoted : (start : Bool) → List Char → Bool
  | _, [] => false
  | start, c :: cs =>
    if !start && c = '"' then isAfterQuoted cs
    else if isQuotedChar c then isQuoted false cs
    else false

/-- Whether parameters are well formed from the end of a quoted value on. -/
def isAfterQuoted : List Char → Bool
  | [] => true
  | c :: cs =>
    if c = ';' then areParameters true cs
    else if c = ' ' then isAfterQuoted cs
    else false

end

/-- The subtype and suffix in a token. -/
def splitSuffix (cs : List Char) : List Char × Option (List Char) :=
  let after := (cs.reverse.takeWhile (· ≠ '+')).reverse
  let before := cs.take (cs.length - after.length - 1)
  if cs.contains '+' ∧ before ≠ [] then (before, some after) else (cs, none)

def lower (cs : List Char) : String := String.ofList (cs.map Char.toLower)

/-- The media type that a text names. -/
def parse? (text : String) : Option MediaType :=
  let cs := text.toList
  let type := cs.takeWhile isTokenChar
  match cs.dropWhile isTokenChar with
  | '/' :: rest =>
    let sub := rest.takeWhile isTokenChar
    let wellFormed : Bool :=
      match rest.dropWhile isTokenChar with
      | [] => true
      | ';' :: parameters => sub ≠ [] && areParameters true parameters
      | _ => false
    if type ≠ [] ∧ wellFormed then
      let (subtype, suffix) := splitSuffix sub
      some { type := lower type, subtype := lower subtype, suffix := suffix.map lower }
    else none
  | _ => none

/-- Whether bodies of the type are JSON. -/
def isJson (m : MediaType) : Bool :=
  m.type = "application" && (m.subtype = "json" || m.suffix = some "json")

end MediaType

end Switchboard.Web
