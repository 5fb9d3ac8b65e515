import Switchboard.Text.Digit

/-!
# Tokens of TOML

Blanks, comments, quoted text and keys. A scanner takes a token off the front of a text and gives
the rest back, or nothing if there is no such token. Loops are bounded by the length of the text,
which every step shortens.
-/

namespace Switchboard.Toml

/-- What is left of a text. -/
abbrev Rest := List Char

/-! ## Blanks, comments and line ends -/

def isBlank (c : Char) : Bool := c = ' ' || c = '\t'

def skipBlanks (cs : Rest) : Rest := cs.dropWhile isBlank

/-- A line feed, or a carriage return before one. -/
def newline? : Rest → Option Rest
  | '\n' :: cs => some cs
  | '\r' :: '\n' :: cs => some cs
  | _ => none

/-- Whether a character may stand in a comment: no control but the tab. -/
def isCommentChar (c : Char) : Bool := c = '\t' || (0x20 ≤ c.toNat && c.toNat ≠ 0x7F)

def skipComment : Rest → Rest
  | '#' :: cs => cs.dropWhile isCommentChar
  | cs => cs

/-- The end of a line, after blanks and a comment. -/
def endLine? (cs : Rest) : Option Rest :=
  match skipComment (skipBlanks cs) with
  | [] => some []
  | cs => newline? cs

/-- Blanks, comments and line ends between the elements of a list. A comment needs a line end. -/
def skipLines : (fuel : Nat) → Rest → Option Rest
  | 0, cs => some cs
  | fuel + 1, cs =>
    match skipBlanks cs with
    | '#' :: cs =>
      match newline? (cs.dropWhile isCommentChar) with
      | some cs => skipLines fuel cs
      | none => none
    | '\n' :: cs => skipLines fuel cs
    | '\r' :: cs =>
      match newline? ('\r' :: cs) with
      | some cs => skipLines fuel cs
      | none => none
    | cs => some cs

/-! ## Quoted text -/

/-- A number of exactly `count` hexadecimal digits, `n` standing for those before. -/
def takeHex : (count : Nat) → (n : Nat) → Rest → Option (Nat × Rest)
  | 0, n, cs => some (n, cs)
  | _ + 1, _, [] => none
  | count + 1, n, c :: cs =>
    match Text.digit? 16 c with
    | some d => takeHex count (n * 16 + d) cs
    | none => none

/-- The character with a code point of `count` hexadecimal digits. -/
def takeCodePoint (count : Nat) (cs : Rest) : Option (Char × Rest) :=
  match takeHex count 0 cs with
  | some (n, cs) => if n.isValidChar then some (Char.ofNat n, cs) else none
  | none => none

/-- The character that what follows a backslash stands for. -/
def takeEscape : Rest → Option (Char × Rest)
  | 'b' :: cs => some ('\x08', cs)
  | 't' :: cs => some ('\t', cs)
  | 'n' :: cs => some ('\n', cs)
  | 'f' :: cs => some ('\x0c', cs)
  | 'r' :: cs => some ('\r', cs)
  | '"' :: cs => some ('"', cs)
  | '\\' :: cs => some ('\\', cs)
  | 'u' :: cs => takeCodePoint 4 cs
  | 'U' :: cs => takeCodePoint 8 cs
  | _ => none

/-- Text of one line after its double quote, with escapes; `done` is what was read, last first. -/
def takeBasic : (fuel : Nat) → (done : List Char) → Rest → Option (String × Rest)
  | 0, _, _ => none
  | fuel + 1, done, cs =>
    match cs with
    | [] => none
    | '"' :: cs => some (String.ofList done.reverse, cs)
    | '\\' :: cs =>
      match takeEscape cs with
      | some (c, cs) => takeBasic fuel (c :: done) cs
      | none => none
    | c :: cs => if isCommentChar c then takeBasic fuel (c :: done) cs else none

/-- Text of one line after its single quote, without escapes. -/
def takeLiteral (cs : Rest) : Option (String × Rest) :=
  let body := cs.takeWhile fun c => isCommentChar c && c ≠ '\''
  match cs.drop body.length with
  | '\'' :: cs => some (String.ofList body, cs)
  | _ => none

/-- The quotes at the front of a text of several lines: three or more end it, and the first two of
five at the end belong to it. -/
def takeQuotes (quote : Char) (cs : Rest) : Bool × Nat × Rest :=
  let n := (cs.takeWhile (· = quote)).length
  if n < 3 then (false, n, cs.drop n) else (true, min n 5 - 3, cs.drop (min n 5))

/-- Blanks and line ends. -/
def skipBlankLines : (fuel : Nat) → Rest → Rest
  | 0, cs => cs
  | fuel + 1, cs =>
    match newline? (skipBlanks cs) with
    | some cs => skipBlankLines fuel cs
    | none => skipBlanks cs

/-- What follows a backslash at the end of a line: the line end and every blank and line end after
it. -/
def skipLineBreak? (cs : Rest) : Option Rest :=
  match newline? (skipBlanks cs) with
  | some cs => some (skipBlankLines cs.length cs)
  | none => none

/-- Text of several lines after its three double quotes. A line end counts as one line feed. -/
def takeLongBasic : (fuel : Nat) → (done : List Char) → Rest → Option (String × Rest)
  | 0, _, _ => none
  | fuel + 1, done, cs =>
    match cs with
    | [] => none
    | '"' :: _ =>
      match takeQuotes '"' cs with
      | (true, n, cs) => some (String.ofList (List.replicate n '"' ++ done).reverse, cs)
      | (false, n, cs) => takeLongBasic fuel (List.replicate n '"' ++ done) cs
    | '\\' :: cs =>
      match skipLineBreak? cs with
      | some cs => takeLongBasic fuel done cs
      | none =>
        match takeEscape cs with
        | some (c, cs) => takeLongBasic fuel (c :: done) cs
        | none => none
    | c :: cs' =>
      match newline? cs with
      | some cs => takeLongBasic fuel ('\n' :: done) cs
      | none => if isCommentChar c then takeLongBasic fuel (c :: done) cs' else none

/-- Text of several lines after its three single quotes. -/
def takeLongLiteral : (fuel : Nat) → (done : List Char) → Rest → Option (String × Rest)
  | 0, _, _ => none
  | fuel + 1, done, cs =>
    match cs with
    | [] => none
    | '\'' :: _ =>
      match takeQuotes '\'' cs with
      | (true, n, cs) => some (String.ofList (List.replicate n '\'' ++ done).reverse, cs)
      | (false, n, cs) => takeLongLiteral fuel (List.replicate n '\'' ++ done) cs
    | c :: cs' =>
      match newline? cs with
      | some cs => takeLongLiteral fuel ('\n' :: done) cs
      | none => if isCommentChar c then takeLongLiteral fuel (c :: done) cs' else none

/-- A line end right after the opening quotes does not count. -/
def skipFirstNewline (cs : Rest) : Rest := (newline? cs).getD cs

/-- Quoted text of any kind. -/
def takeQuoted : Rest → Option (String × Rest)
  | '"' :: '"' :: '"' :: cs => takeLongBasic (cs.length + 1) [] (skipFirstNewline cs)
  | '\'' :: '\'' :: '\'' :: cs => takeLongLiteral (cs.length + 1) [] (skipFirstNewline cs)
  | '"' :: cs => takeBasic (cs.length + 1) [] cs
  | '\'' :: cs => takeLiteral cs
  | _ => none

/-! ## Keys -/

def isKeyChar (c : Char) : Bool := c.isAlphanum || c = '_' || c = '-'

/-- One part of a key: quoted on one line, or bare. -/
def takeKeyPart : Rest → Option (String × Rest)
  | '"' :: cs => takeBasic (cs.length + 1) [] cs
  | '\'' :: cs => takeLiteral cs
  | cs =>
    let body := cs.takeWhile isKeyChar
    if body.isEmpty then none else some (String.ofList body, cs.drop body.length)

/-- The parts of a key, with dots between them and blanks around them. -/
def takeKeyParts : (fuel : Nat) → (done : List String) → Rest → Option (List String × Rest)
  | 0, _, _ => none
  | fuel + 1, done, cs =>
    match takeKeyPart (skipBlanks cs) with
    | none => none
    | some (part, cs) =>
      match skipBlanks cs with
      | '.' :: cs => takeKeyParts fuel (part :: done) cs
      | cs => some ((part :: done).reverse, cs)

/-- The greatest number of parts of a key, and one more than the greatest depth of a value. -/
def depthLimit : Nat := 80

/-- A key: the parts before the last, and the last. -/
def takeKey (cs : Rest) : Option (List String × String × Rest) :=
  match takeKeyParts depthLimit [] cs with
  | some (parts, cs) =>
    match parts.getLast? with
    | some last =>
      if parts.length < depthLimit then some (parts.dropLast, last, cs) else none
    | none => none
  | none => none

end Switchboard.Toml
