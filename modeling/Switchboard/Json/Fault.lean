import Switchboard.Text.Quoted

/-!
# What can be wrong with a JSON text

A fault is either one of form (the text is no JSON) or one of shape (it is JSON, but not of the
value that was asked for). The first fault in text order is the one that is reported.
-/

namespace Switchboard.Json

/-- A value of the wrong shape, as far as it is told. -/
inductive Found
  | null
  | flag (b : Bool)
  | integer (n : Int)
  /-- A number with a fraction or an exponent, or too large for sixty-four bits. -/
  | decimal (shown : String)
  | text (s : String)
  | sequence
  | map
  deriving DecidableEq, Repr

/-- Why a text could not be read. -/
inductive Fault
  | endInValue
  | endInObject
  | endInList
  | endInText
  | expectedValue
  | expectedWord
  | expectedColon
  | expectedCommaOrBrace
  | expectedCommaOrBracket
  | keyNotText
  | trailingComma
  | trailingCharacters
  | badNumber
  | numberTooLarge
  | badEscape
  /-- An escape for the first half of a pair is not followed by another escape. -/
  | halfPair
  /-- An escape stands for half of a pair whose other half is missing. -/
  | loneSurrogate
  | controlCharacter
  /-- A field of a record is given twice. -/
  | duplicateField (name : String)
  | missingField (name : String)
  /-- A list ends before the fields of the record it stands for. -/
  | shortRecord (length : Nat) (expected : String)
  | wrongType (found : Found) (expected : String)
  /-- An integer is outside the range of what was asked for. -/
  | outOfRange (n : Int) (expected : String)
  deriving DecidableEq, Repr

/-- How a value of the wrong shape is told. -/
def Found.message : Found → String
  | null => "null"
  | flag b => s!"boolean `{b}`"
  | integer n => s!"integer `{n}`"
  | decimal shown => s!"floating point `{shown}`"
  | text s => s!"string {Text.quote s}"
  | sequence => "sequence"
  | map => "map"

/-- How a fault is told to a person. -/
def Fault.message : Fault → String
  | endInValue => "EOF while parsing a value"
  | endInObject => "EOF while parsing an object"
  | endInList => "EOF while parsing a list"
  | endInText => "EOF while parsing a string"
  | expectedValue => "expected value"
  | expectedWord => "expected ident"
  | expectedColon => "expected `:`"
  | expectedCommaOrBrace => "expected `,` or `\x7d`"
  | expectedCommaOrBracket => "expected `,` or `]`"
  | keyNotText => "key must be a string"
  | trailingComma => "trailing comma"
  | trailingCharacters => "trailing characters"
  | badNumber => "invalid number"
  | numberTooLarge => "number out of range"
  | badEscape => "invalid escape"
  | halfPair => "unexpected end of hex escape"
  | loneSurrogate => "lone leading surrogate in hex escape"
  | controlCharacter => "control character (\\u0000-\\u001F) found while parsing a string"
  | duplicateField name => s!"duplicate field `{name}`"
  | missingField name => s!"missing field `{name}`"
  | shortRecord length expected => s!"invalid length {length}, expected {expected}"
  | wrongType found expected => s!"invalid type: {found.message}, expected {expected}"
  | outOfRange n expected => s!"invalid value: integer `{n}`, expected {expected}"

/-- Whether the text is JSON as far as it was read, only not of the shape that was asked for. -/
def Fault.isOfShape : Fault → Bool
  | duplicateField _ | missingField _ | shortRecord _ _ | wrongType _ _ | outOfRange _ _ => true
  | _ => false

end Switchboard.Json
