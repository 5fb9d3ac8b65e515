import Switchboard.Json.Skip
import Switchboard.Json.Value
import Mathlib.Algebra.Group.Int.Defs
import Mathlib.Algebra.Group.Nat.Defs
import Mathlib.Data.List.Forall2

/-!
# The grammar of JSON

What JSON looks like, said without any reader: blanks, texts and what they stand for, numbers, items
between brackets, and values of any depth. Every relation is about the characters of one thing alone,
and what a value stands for is `Value.Spelled`.

A text that is read has to stand for characters, so an escape for half of a pair needs the other half
(`Spells`). A text that nobody reads needs its form only (`IsText`).
-/

namespace Switchboard.Json

/-- Nothing but blanks. -/
def Blank (cs : List Char) : Prop := ∀ c ∈ cs, c ∈ [' ', '\n', '\t', '\r']

/-! ## Texts -/

/-- A hexadecimal digit, in either case, and what it is worth. -/
def IsHex (c : Char) (n : Nat) : Prop :=
  n < 16 ∧ (c = Nat.digitChar n ∨ c = (Nat.digitChar n).toUpper)

/-- The four digits after `\u`, and what they are worth together. -/
inductive IsUnit : List Char → Nat → Prop
  | digits {a b c d : Char} {i j k l : Nat} (ha : IsHex a i) (hb : IsHex b j) (hc : IsHex c k)
      (hd : IsHex d l) : IsUnit [a, b, c, d] (i * 16 ^ 3 + j * 16 ^ 2 + k * 16 + l)

/-- The letters after a backslash, with the characters that they stand for. -/
def escapes : List (Char × Char) :=
  [('"', '"'), ('\\', '\\'), ('/', '/'), ('b', '\x08'), ('f', '\x0c'), ('n', '\n'), ('r', '\r'),
    ('t', '\t')]

/-- A character that stands for itself between quotes. -/
def IsPlain (c : Char) : Prop := 0x20 ≤ c.toNat ∧ c ≠ '"' ∧ c ≠ '\\'

/-- How one character may be spelled between quotes. -/
inductive SpellsChar : List Char → Char → Prop
  | plain {c : Char} (h : IsPlain c) : SpellsChar [c] c
  | escape {letter c : Char} (h : (letter, c) ∈ escapes) : SpellsChar ['\\', letter] c
  | unit {digits : List Char} {n : Nat} (h : IsUnit digits n) (hn : n.isValidChar) :
      SpellsChar ('\\' :: 'u' :: digits) (Char.ofNat n)
  /-- A character beyond the first sixteen bits is spelled as a pair of halves. -/
  | pair {lead trail : List Char} {m n : Nat} (hlead : IsUnit lead m) (htrail : IsUnit trail n)
      (hm : 0xD800 ≤ m ∧ m ≤ 0xDBFF) (hn : 0xDC00 ≤ n ∧ n ≤ 0xDFFF) :
      SpellsChar ('\\' :: 'u' :: lead ++ '\\' :: 'u' :: trail)
        (Char.ofNat (0x10000 + (m - 0xD800) * 0x400 + (n - 0xDC00)))

/-- What stands between quotes, and the characters that it stands for. -/
inductive Spells : List Char → List Char → Prop
  | nil : Spells [] []
  | cons {piece cs text : List Char} {c : Char} (h : SpellsChar piece c) (hrest : Spells cs text) :
      Spells (piece ++ cs) (c :: text)

/-- A piece of what stands between quotes where nobody reads it: an escape need not stand for a
character by itself. -/
inductive IsPiece : List Char → Prop
  | plain {c : Char} (h : IsPlain c) : IsPiece [c]
  | escape {letter c : Char} (h : (letter, c) ∈ escapes) : IsPiece ['\\', letter]
  | unit {digits : List Char} {n : Nat} (h : IsUnit digits n) : IsPiece ('\\' :: 'u' :: digits)

/-- What may stand between quotes. -/
inductive IsText : List Char → Prop
  | nil : IsText []
  | cons {piece cs : List Char} (h : IsPiece piece) (hrest : IsText cs) : IsText (piece ++ cs)

/-- Something between quotes. -/
def Quoted (Inner : List Char → Prop) (cs : List Char) : Prop :=
  ∃ inner, Inner inner ∧ cs = '"' :: inner ++ ['"']

/-! ## Numbers -/

/-- One digit or more. -/
def IsDigits (cs : List Char) : Prop := cs ≠ [] ∧ ∀ c ∈ cs, c.isDigit = true

/-- The exponent of a number, if it has one: its sign and its digits. -/
def IsExponent : Option (Bool × List Char) → List Char → Prop
  | none, cs => cs = []
  | some (negative, digits), cs =>
    IsDigits digits ∧ ∃ e ∈ ['e', 'E'], ∃ sign ∈ if negative then [['-']] else [[], ['+']],
      cs = e :: sign ++ digits

/-- The fraction of a number, if it has one: its digits. -/
def IsFraction : Option (List Char) → List Char → Prop
  | none, cs => cs = []
  | some digits, cs => IsDigits digits ∧ cs = '.' :: digits

/-- How a number is written. A zero is the only digit before the point, or not the first one. -/
structure IsNumber (l : Literal) (cs : List Char) : Prop where
  whole : IsDigits l.whole
  zero : l.whole.head? = some '0' → l.whole = ['0']
  parts : ∃ fraction exponent, IsFraction l.fraction fraction ∧ IsExponent l.exponent exponent ∧
    cs = (if l.negative then ['-'] else []) ++ l.whole ++ fraction ++ exponent

/-! ## Lists and objects -/

def Bracket.opening : Bracket → Char
  | list => '['
  | object => '{'

/-- What stands before an item in brackets: a comma if it is not the first one, and blanks. -/
def Between : (isFirst : Bool) → List Char → Prop
  | true, cs => Blank cs
  | false, cs => ∃ blank blank', Blank blank ∧ Blank blank' ∧ cs = blank ++ ',' :: blank'

/-- What follows an opening bracket up to the closing one: items with commas between them, and blanks
around everything. -/
inductive Filled (bracket : Bracket) : (isFirst : Bool) → (items : List (List Char)) →
    List Char → Prop
  | closing {isFirst : Bool} {blank : List Char} (hblank : Blank blank) :
      Filled bracket isFirst [] (blank ++ [bracket.closing])
  | item {isFirst : Bool} {between item cs : List Char} {items : List (List Char)}
      (hbetween : Between isFirst between) (hrest : Filled bracket false items cs) :
      Filled bracket isFirst (item :: items) (between ++ item ++ cs)

/-- Items between brackets. -/
def Enclosed (bracket : Bracket) (items : List (List Char)) (cs : List Char) : Prop :=
  ∃ inner, Filled bracket true items inner ∧ cs = bracket.opening :: inner

/-- A member of an object: its key, a colon and its value. -/
def IsMember (key value cs : List Char) : Prop :=
  ∃ before after, Blank before ∧ Blank after ∧ cs = key ++ before ++ ':' :: (after ++ value)

/-- A list whose items have forms of a kind. -/
def ListOf {α : Type} (Form : α → List Char → Prop) (items : List α) (cs : List Char) : Prop :=
  ∃ forms, List.Forall₂ Form items forms ∧ Enclosed .list forms cs

/-- A member whose key is of a kind. -/
def MemberOf {κ : Type} (Key : κ → List Char → Prop) (m : κ × List Char) (form : List Char) : Prop :=
  ∃ key, Key m.1 key ∧ IsMember key m.2 form

/-- An object whose members have keys of a kind; of a member there are its key and the form of its
value. -/
def ObjectOf {κ : Type} (Key : κ → List Char → Prop) (members : List (κ × List Char))
    (cs : List Char) : Prop :=
  ∃ forms, List.Forall₂ (MemberOf Key) members forms ∧ Enclosed .object forms cs

/-- Any value at all, of which only the form counts. -/
inductive WellFormed : List Char → Prop
  | word {cs : List Char} (h : cs ∈ ["null".toList, "true".toList, "false".toList]) : WellFormed cs
  | number {l : Literal} {cs : List Char} (h : IsNumber l cs) : WellFormed cs
  | text {cs : List Char} (h : Quoted IsText cs) : WellFormed cs
  | list {items : List (List Char)} {cs : List Char} (hitems : ∀ item ∈ items, WellFormed item)
      (h : Enclosed .list items cs) : WellFormed cs
  | object {members : List (List Char × List Char)} {cs : List Char}
      (hmembers : ∀ m ∈ members, WellFormed m.2)
      (h : ObjectOf (fun key form => key = form ∧ Quoted IsText form) members cs) : WellFormed cs

/-- How a text is spelled, quotes included. -/
def TextSpelled (s : String) : List Char → Prop := Quoted fun inner => Spells inner s.toList

/-- How a value may be spelled. An integer has one spelling only: its decimal digits, the first one
no zero unless it is the only one, and a minus sign if it is negative. -/
inductive Value.Spelled : Value → List Char → Prop
  | null : Spelled .null "null".toList
  | flag (b : Bool) : Spelled (.flag b) (toString b).toList
  | integer (n : Int) : Spelled (.integer n) (toString n).toList
  | text {s : String} {cs : List Char} (h : TextSpelled s cs) : Spelled (.text s) cs
  | list {items : List Value} {forms : List (List Char)} {cs : List Char}
      (hlength : items.length = forms.length) (hitems : ∀ p ∈ items.zip forms, p.1.Spelled p.2)
      (h : Enclosed .list forms cs) : Spelled (.list items) cs
  | object {members : List (String × Value)} {forms : List (List Char)} {cs : List Char}
      (hlength : members.length = forms.length)
      (hmembers : ∀ p ∈ members.zip forms, p.1.2.Spelled p.2)
      (h : ObjectOf TextSpelled ((members.map Prod.fst).zip forms) cs) : Spelled (.object members) cs

/-- A form with nothing but blanks around it. -/
def Alone (Form : List Char → Prop) (cs : List Char) : Prop :=
  ∃ before form after, Blank before ∧ Blank after ∧ Form form ∧ cs = before ++ form ++ after

end Switchboard.Json
