import Switchboard.Bytes

/-!
# Writing JSON

A value is written without blanks, its members in the order in which they are given. Inside a text
only what must be escaped is escaped, the shortest way there is.
-/

namespace Switchboard.Json

/-- A JSON value as far as answers need it. -/
inductive Value
  | null
  | flag (b : Bool)
  | integer (n : Int)
  | text (s : String)
  | list (items : List Value)
  | object (members : List (String × Value))
  deriving BEq

/-- How a character stands inside a text. -/
def escaped (c : Char) : List Char :=
  if c = '"' then ['\\', '"']
  else if c = '\\' then ['\\', '\\']
  else if c = '\n' then ['\\', 'n']
  else if c = '\r' then ['\\', 'r']
  else if c = '\t' then ['\\', 't']
  else if c = '\x08' then ['\\', 'b']
  else if c = '\x0c' then ['\\', 'f']
  else if c.toNat < 0x20 then
    ['\\', 'u', '0', '0', Bytes.hexDigit (c.toNat / 16), Bytes.hexDigit (c.toNat % 16)]
  else [c]

/-- A text between quotes. -/
def quoted (s : String) : List Char := '"' :: s.toList.flatMap escaped ++ ['"']

mutual

/-- The characters of a value. -/
def Value.chars : Value → List Char
  | .null => "null".toList
  | .flag true => "true".toList
  | .flag false => "false".toList
  | .integer n => (toString n).toList
  | .text s => quoted s
  | .list [] => ['[', ']']
  | .list (v :: items) => '[' :: v.chars ++ itemsAfter items
  | .object [] => ['{', '}']
  | .object ((k, v) :: members) => '{' :: quoted k ++ ':' :: v.chars ++ membersAfter members

/-- The rest of a list after its first item. -/
def itemsAfter : List Value → List Char
  | [] => [']']
  | v :: items => ',' :: v.chars ++ itemsAfter items

/-- The rest of an object after its first member. -/
def membersAfter : List (String × Value) → List Char
  | [] => ['}']
  | (k, v) :: members => ',' :: quoted k ++ ':' :: v.chars ++ membersAfter members

end

/-- The text of a value. -/
def Value.render (v : Value) : String := String.ofList v.chars

/-- A text, if there is one. -/
def Value.ofText? : Option String → Value
  | some s => .text s
  | none => .null

/-- A count. -/
def Value.count (n : Nat) : Value := .integer n

end Switchboard.Json
