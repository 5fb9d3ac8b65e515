/-!
# Blanks around text

The blanks are the characters with the Unicode property White_Space, so that what a person pastes
into a setting or a query counts without the space around it.
-/

namespace Switchboard.Text

/-- The code points of the blanks, both ends of each range included. -/
def blankRanges : List (Nat × Nat) :=
  [(0x09, 0x0D), (0x20, 0x20), (0x85, 0x85), (0xA0, 0xA0), (0x1680, 0x1680), (0x2000, 0x200A),
   (0x2028, 0x2029), (0x202F, 0x202F), (0x205F, 0x205F), (0x3000, 0x3000)]

def isBlank (c : Char) : Bool :=
  blankRanges.any fun (low, high) => low ≤ c.toNat && c.toNat ≤ high

/-- A text without the blanks around it. -/
def trim (text : String) : String :=
  String.ofList ((text.toList.dropWhile isBlank).reverse.dropWhile isBlank).reverse

/-- The lower-case form of the letters of ASCII; all else stays. -/
def lowerAscii (text : String) : String := String.ofList (text.toList.map Char.toLower)

/-- The parts of a text around every occurrence of a character. -/
def splitOn (sep : Char) (cs : List Char) : List (List Char) :=
  match cs with
  | [] => [[]]
  | c :: cs =>
    if c = sep then [] :: splitOn sep cs
    else
      match splitOn sep cs with
      | part :: parts => (c :: part) :: parts
      | [] => [[c]]

end Switchboard.Text
