import Switchboard.Toml.Scan

/-!
# Values of TOML

A value is read from the front of a text. What a float or a date is worth is not kept, only that it
is one. How a table came to be decides who may add to it later: a table that was only named on the
way to another one may still be opened by a header, one that grew from dotted keys may grow from
more of them, and all others are complete.
-/

namespace Switchboard.Toml

/-- How a table came to be. -/
inductive Origin
  /-- Opened by a header of its own. -/
  | header
  /-- Named in the header of a table inside it. -/
  | parent
  /-- Named in a dotted key. -/
  | dotted
  /-- Written between braces. -/
  | inline
  deriving DecidableEq, Repr

inductive Value
  | text (s : String)
  | integer (n : Int)
  | float
  | flag (b : Bool)
  | moment
  | array (items : List Value)
  /-- The tables of a repeated header. -/
  | tables (items : List Value)
  | table (origin : Origin) (entries : List (String × Value))
  deriving Inhabited

/-! ## Numbers -/

/-- Digits of a base, single underscores allowed between them. -/
def digits? (isDigit : Char → Bool) : List Char → Option (List Char)
  | [] => none
  | [c] => if isDigit c then some [c] else none
  | c :: '_' :: cs => if isDigit c then (digits? isDigit cs).map (c :: ·) else none
  | c :: cs => if isDigit c then (digits? isDigit cs).map (c :: ·) else none

/-- A sign in front: whether it is a minus, and the rest. -/
def splitSign : List Char → Bool × List Char
  | '+' :: cs => (false, cs)
  | '-' :: cs => (true, cs)
  | cs => (false, cs)

/-- Decimal digits without a leading zero. -/
def wholeDigits? (cs : List Char) : Option (List Char) :=
  match digits? Char.isDigit cs with
  | some ('0' :: _ :: _) => none
  | result => result

/-- An integer, if it fits sixty-four bits. -/
def inRange (n : Int) : Option Value :=
  if Int64.minValue.toInt ≤ n ∧ n ≤ Int64.maxValue.toInt then some (.integer n) else none

/-- An integer without a sign. -/
def unsigned? (base : Nat) (isDigit : Char → Bool) (cs : List Char) : Option Value :=
  (digits? isDigit cs).bind fun digits => inRange (Text.number base digits)

/-- An integer of sixty-four bits. Only decimal ones have a sign. -/
def integer? : List Char → Option Value
  | '0' :: 'x' :: cs => unsigned? 16 (fun c => (Text.digit? 16 c).isSome) cs
  | '0' :: 'o' :: cs => unsigned? 8 (fun c => '0' ≤ c && c ≤ '7') cs
  | '0' :: 'b' :: cs => unsigned? 2 (fun c => c = '0' || c = '1') cs
  | cs =>
    let (negative, cs) := splitSign cs
    (wholeDigits? cs).bind fun digits =>
      let n : Int := Text.number 10 digits
      inRange (if negative then -n else n)

/-- Whether `n * 10 ^ scale` is too large for a double. -/
def overflows (n : Nat) (scale : Int) : Bool :=
  if n = 0 then false
  else
    let magnitude := ((Nat.toDigits 10 n).length : Int) + scale
    if magnitude < 300 then false
    else if 320 < magnitude then true
    else
      (Nat.pow 2 1024 - Nat.pow 2 970) * Nat.pow 10 (-scale).toNat ≤ n * Nat.pow 10 scale.toNat

/-- Whether a text is a float: a point with digits around it, an exponent, or both. A positive one
must not be too large. -/
def isFloat (cs : List Char) : Bool :=
  let (negative, cs) := splitSign cs
  if cs = ['i', 'n', 'f'] ∨ cs = ['n', 'a', 'n'] then true
  else
    let body := cs.takeWhile fun c => c ≠ 'e' && c ≠ 'E'
    let exponent? : Option (Option Int) :=
      match cs.drop body.length with
      | [] => some none
      | _ :: cs =>
        let (down, cs) := splitSign cs
        (digits? Char.isDigit cs).map fun ds =>
          let n : Int := Text.number 10 ds
          some (if down then -n else n)
    let whole := body.takeWhile (· ≠ '.')
    let fraction? : Option (Option (List Char)) :=
      match body.drop whole.length with
      | [] => some none
      | _ :: cs => (digits? Char.isDigit cs).map some
    match wholeDigits? whole, fraction?, exponent? with
    | some ds, some fraction, some exponent =>
      if fraction.isNone && exponent.isNone then false
      else
        let places := fraction.getD []
        negative || !overflows (Text.number 10 (ds ++ places)) (exponent.getD 0 - places.length)
    | _, _, _ => false

/-! ## Dates and times -/

/-- A number of exactly `count` decimal digits in a range. -/
def takeDigits (count low high : Nat) (cs : List Char) : Option (Nat × List Char) :=
  let ds := cs.take count
  if ds.length = count ∧ ds.all Char.isDigit then
    let n := Text.number 10 ds
    if low ≤ n ∧ n ≤ high then some (n, cs.drop count) else none
  else none

def expect (c : Char) : List Char → Option (List Char)
  | d :: cs => if d = c then some cs else none
  | [] => none

def daysInMonth (year month : Nat) : Nat :=
  let isLeap := year % 4 = 0 ∧ (year % 100 ≠ 0 ∨ year % 400 = 0)
  if month = 2 then (if isLeap then 29 else 28)
  else if month = 4 ∨ month = 6 ∨ month = 9 ∨ month = 11 then 30
  else 31

def takeDate (cs : List Char) : Option (List Char) := do
  let (year, cs) ← takeDigits 4 0 9999 cs
  let cs ← expect '-' cs
  let (month, cs) ← takeDigits 2 1 12 cs
  let cs ← expect '-' cs
  let (_, cs) ← takeDigits 2 1 (daysInMonth year month) cs
  return cs

def takeTime (cs : List Char) : Option (List Char) := do
  let (_, cs) ← takeDigits 2 0 23 cs
  let cs ← expect ':' cs
  let (_, cs) ← takeDigits 2 0 59 cs
  let cs ← expect ':' cs
  let (_, cs) ← takeDigits 2 0 60 cs
  match cs with
  | '.' :: cs =>
    let rest := cs.dropWhile Char.isDigit
    if rest.length < cs.length then some rest else none
  | cs => return cs

def takeOffset : List Char → Option (List Char)
  | [] => some []
  | c :: cs =>
    if c = 'Z' ∨ c = 'z' then some cs
    else if c = '+' ∨ c = '-' then do
      let (_, cs) ← takeDigits 2 0 23 cs
      let cs ← expect ':' cs
      let (_, cs) ← takeDigits 2 0 59 cs
      return cs
    else none

/-- Whether a text is a date, a time, or both with an offset or without. -/
def isMoment (cs : List Char) : Bool :=
  match takeDate cs with
  | some [] => true
  | some (c :: cs) =>
    (c = 'T' || c = 't' || c = ' ') && ((takeTime cs).bind takeOffset == some [])
  | none => takeTime cs == some []

/-! ## Bare values -/

/-- Whether a character may stand in a bare value. -/
def isBareChar (c : Char) : Bool :=
  c.isAlphanum || c = '+' || c = '-' || c = '_' || c = '.' || c = ':'

/-- The bare value at the front of a text: a date goes on over one blank if a digit follows. -/
def splitBare (cs : Rest) : List Char × Rest :=
  let body := cs.takeWhile isBareChar
  let rest := cs.drop body.length
  match takeDate body, rest with
  | some [], ' ' :: c :: tail =>
    if c.isDigit then
      let more := (c :: tail).takeWhile isBareChar
      (body ++ ' ' :: more, (c :: tail).drop more.length)
    else (body, rest)
  | _, _ => (body, rest)

def bareValue? (cs : List Char) : Option Value :=
  if cs = ['t', 'r', 'u', 'e'] then some (.flag true)
  else if cs = ['f', 'a', 'l', 's', 'e'] then some (.flag false)
  else if isMoment cs then some .moment
  else if isFloat cs then some .float
  else integer? cs

/-! ## Tables that grow -/

/-- The value a key has. -/
def find? (key : String) : List (String × Value) → Option Value
  | [] => none
  | (k, v) :: entries => if k = key then some v else find? key entries

/-- The entries with a value for a key, in its old place if it had one. -/
def put (key : String) (value : Value) : List (String × Value) → List (String × Value)
  | [] => [(key, value)]
  | (k, v) :: entries =>
    if k = key then (k, value) :: entries else (k, v) :: put key value entries

/-- Goes down a path of keys from a table and changes the table it ends at. Tables that are missing
on the way are made. A path of dotted keys does not enter a table with a header; a repeated header
is entered at its last table. -/
def descend (dottedKey : Bool) (change : Origin → List (String × Value) →
      Option (Origin × List (String × Value))) :
    (path : List String) → Origin → List (String × Value) →
      Option (Origin × List (String × Value))
  | [], origin, entries => change origin entries
  | key :: path, origin, entries =>
    match find? key entries with
    | none => do
      let fresh := if dottedKey then Origin.dotted else Origin.parent
      let (o, es) ← descend dottedKey change path fresh []
      return (origin, put key (.table o es) entries)
    | some (.table o es) =>
      if o = .inline ∨ (dottedKey ∧ o = .header) then none
      else do
        let (o, es) ← descend dottedKey change path o es
        return (origin, put key (.table o es) entries)
    | some (.tables items) =>
      match items.getLast? with
      | some (.table o es) => do
        let (o, es) ← descend dottedKey change path o es
        return (origin, put key (.tables (items.dropLast ++ [.table o es])) entries)
      | _ => none
    | some _ => none

/-- Adds a key with a value that it did not have, at the end of a path of dotted keys. Only a table
that grew from dotted keys takes more from a path. -/
def addEntry (path : List String) (key : String) (value : Value)
    (origin : Origin) (entries : List (String × Value)) :
    Option (Origin × List (String × Value)) :=
  descend true (fun o es =>
    if decide (o = .dotted) = path.isEmpty then none
    else if (find? key es).isSome then none
    else some (o, es ++ [(key, value)])) path origin entries

/-! ## Lists and inline tables -/

/-- The elements of a list after its opening bracket; a comma may stand after the last. -/
def takeItems (item : Rest → Option (Value × Rest)) :
    (fuel : Nat) → (done : List Value) → Rest → Option (Value × Rest)
  | 0, _, _ => none
  | fuel + 1, done, cs =>
    match skipLines cs.length cs with
    | none => none
    | some (']' :: cs) => some (.array done.reverse, cs)
    | some cs =>
      match item cs with
      | none => none
      | some (value, cs) =>
        match skipLines cs.length cs with
        | some (',' :: cs) => takeItems item fuel (value :: done) cs
        | some (']' :: cs) => some (.array (value :: done).reverse, cs)
        | _ => none

/-- A key, an equals sign and a value. -/
def takeEntry (item : Rest → Option (Value × Rest)) (cs : Rest) :
    Option ((List String × String × Value) × Rest) := do
  let (path, key, cs) ← takeKey cs
  match cs with
  | '=' :: cs =>
    let (value, cs) ← item (skipBlanks cs)
    return ((path, key, value), cs)
  | _ => none

/-- The entries of an inline table from the first on, all on one line. -/
def takeEntries (item : Rest → Option (Value × Rest)) :
    (fuel : Nat) → (entries : List (String × Value)) → Rest → Option (Value × Rest)
  | 0, _, _ => none
  | fuel + 1, entries, cs => do
    let ((path, key, value), cs) ← takeEntry item cs
    let (_, entries) ← addEntry path key value .inline entries
    match skipBlanks cs with
    | ',' :: cs => takeEntries item fuel entries cs
    | '}' :: cs => some (.table .inline entries, cs)
    | _ => none

/-- A value, with at most `depth` brackets around anything in it. -/
def takeValue : (depth : Nat) → Rest → Option (Value × Rest)
  | 0, cs => takeFlat cs
  | depth + 1, cs =>
    match cs with
    | '[' :: cs => takeItems (takeValue depth) (cs.length + 1) [] cs
    | '{' :: cs =>
      match skipBlanks cs with
      | '}' :: cs => some (.table .inline [], cs)
      | cs => takeEntries (takeValue depth) (cs.length + 1) [] cs
    | cs => takeFlat cs
where
  /-- A value without brackets. -/
  takeFlat (cs : Rest) : Option (Value × Rest) :=
    match cs with
    | '"' :: _ | '\'' :: _ =>
      match takeQuoted cs with
      | some (s, cs) => some (.text s, cs)
      | none => none
    | _ =>
      let (body, rest) := splitBare cs
      (bareValue? body).map (·, rest)

end Switchboard.Toml
