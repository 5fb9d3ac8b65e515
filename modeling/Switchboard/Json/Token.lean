import Switchboard.Json.Fault
import Switchboard.Decimal.Shortest
import Switchboard.Text.Digit

/-!
# Tokens of JSON

A reader of tokens works on what is left of a text and gives the rest back. Each comes with the
bound on the rest that its callers end by: a blank takes nothing or more, every other token takes
at least one character.
-/

namespace Switchboard.Json

/-! ## Blanks and words -/

def isBlank (c : Char) : Bool := c = ' ' || c = '\n' || c = '\t' || c = '\r'

def skipBlanks (cs : List Char) : List Char := cs.dropWhile isBlank

theorem length_skipBlanks_le (cs : List Char) : (skipBlanks cs).length ≤ cs.length :=
  (List.dropWhile_suffix _).length_le

/-- Takes the letters of `word` off the front. -/
def expectWord : (word : List Char) → List Char → Except Fault (List Char)
  | [], cs => .ok cs
  | _ :: _, [] => .error .endInValue
  | w :: word, c :: cs => if c = w then expectWord word cs else .error .expectedWord

/-- The empty word takes nothing, so the bound is not strict. -/
theorem length_of_expectWord {word cs rest : List Char} (h : expectWord word cs = .ok rest) :
    rest.length ≤ cs.length := by
  induction word generalizing cs with
  | nil => cases h; exact Nat.le_refl _
  | cons w word ih =>
    cases cs with
    | nil => cases h
    | cons c cs =>
      rw [expectWord] at h
      split at h
      · exact Nat.le_succ_of_le (ih h)
      · cases h

/-! ## Numbers -/

/-- A number as it is written. -/
structure Literal where
  negative : Bool
  whole : List Char
  fraction : Option (List Char)
  /-- Whether the exponent is negative, and its digits. -/
  exponent : Option (Bool × List Char)
  deriving DecidableEq, Repr

/-- One digit or more. `atEnd` is the fault of a text that ends before the first. -/
def takeDigits (atEnd : Fault) : List Char → Except Fault (List Char × List Char)
  | [] => .error atEnd
  | c :: cs =>
    if c.isDigit then .ok (c :: cs.takeWhile Char.isDigit, cs.dropWhile Char.isDigit)
    else .error .badNumber

/-- The digits before the point; a zero stands alone. -/
def takeWhole (atEnd : Fault) : List Char → Except Fault (List Char × List Char)
  | '0' :: c :: cs => if c.isDigit then .error .badNumber else .ok (['0'], c :: cs)
  | cs => takeDigits atEnd cs

def takeFraction (atEnd : Fault) : List Char → Except Fault (Option (List Char) × List Char)
  | '.' :: cs =>
    match takeDigits atEnd cs with
    | .ok (digits, rest) => .ok (some digits, rest)
    | .error fault => .error fault
  | cs => .ok (none, cs)

/-- The sign of an exponent; none is a plus. -/
def takeSign : List Char → Bool × List Char
  | '+' :: cs => (false, cs)
  | '-' :: cs => (true, cs)
  | cs => (false, cs)

def takeExponent (atEnd : Fault) :
    List Char → Except Fault (Option (Bool × List Char) × List Char)
  | [] => .ok (none, [])
  | c :: cs =>
    if c = 'e' ∨ c = 'E' then
      match takeDigits atEnd (takeSign cs).2 with
      | .ok (digits, rest) => .ok (some ((takeSign cs).1, digits), rest)
      | .error fault => .error fault
    else .ok (none, c :: cs)

/-- Takes a number off the front, its sign already taken. -/
def takeUnsigned (atEnd : Fault) (negative : Bool) (cs : List Char) :
    Except Fault (Literal × List Char) :=
  match takeWhole atEnd cs with
  | .error fault => .error fault
  | .ok (whole, cs) =>
    match takeFraction atEnd cs with
    | .error fault => .error fault
    | .ok (fraction, cs) =>
      match takeExponent atEnd cs with
      | .error fault => .error fault
      | .ok (exponent, cs) => .ok (⟨negative, whole, fraction, exponent⟩, cs)

/-- Takes a number off the front. -/
def takeLiteral (atEnd : Fault) : List Char → Except Fault (Literal × List Char)
  | '-' :: cs => takeUnsigned atEnd true cs
  | cs => takeUnsigned atEnd false cs

theorem length_of_takeDigits {atEnd : Fault} {cs digits rest : List Char}
    (h : takeDigits atEnd cs = .ok (digits, rest)) : rest.length < cs.length := by
  cases cs with
  | nil => cases h
  | cons c cs =>
    rw [takeDigits] at h
    split at h
    · cases h
      exact Nat.lt_succ_of_le (List.dropWhile_suffix _).length_le
    · cases h

/-- There is a digit before the point at least. -/
theorem length_of_takeWhole {atEnd : Fault} {cs digits rest : List Char}
    (h : takeWhole atEnd cs = .ok (digits, rest)) : rest.length < cs.length := by
  unfold takeWhole at h
  split at h
  · split at h
    · cases h
    · cases h; simp
  · exact length_of_takeDigits h

/-- A fraction may be missing. -/
theorem length_of_takeFraction {atEnd : Fault} {cs rest : List Char} {digits : Option (List Char)}
    (h : takeFraction atEnd cs = .ok (digits, rest)) : rest.length ≤ cs.length := by
  unfold takeFraction at h
  split at h
  · split at h
    · rename_i hd
      cases h
      exact Nat.le_succ_of_le (Nat.le_of_lt (length_of_takeDigits hd))
    · cases h
  · cases h; exact Nat.le_refl _

theorem length_takeSign_le (cs : List Char) : (takeSign cs).2.length ≤ cs.length := by
  unfold takeSign
  split <;> simp

theorem length_of_takeExponent {atEnd : Fault} {cs rest : List Char}
    {exponent : Option (Bool × List Char)}
    (h : takeExponent atEnd cs = .ok (exponent, rest)) : rest.length ≤ cs.length := by
  unfold takeExponent at h
  split at h
  · cases h; exact Nat.le_refl _
  · rename_i c cs
    split at h
    · split at h
      · rename_i hd
        cases h
        have h1 := length_of_takeDigits hd
        have h2 := length_takeSign_le cs
        simp only [List.length_cons]
        omega
      · cases h
    · cases h; exact Nat.le_refl _

theorem length_of_takeUnsigned {atEnd : Fault} {negative : Bool} {cs rest : List Char}
    {literal : Literal} (h : takeUnsigned atEnd negative cs = .ok (literal, rest)) :
    rest.length < cs.length := by
  unfold takeUnsigned at h
  split at h
  · cases h
  · rename_i h1
    split at h
    · cases h
    · rename_i h2
      split at h
      · cases h
      · rename_i h3
        cases h
        have := length_of_takeWhole h1
        have := length_of_takeFraction h2
        have := length_of_takeExponent h3
        omega

/-- **A number takes one character at least.** -/
theorem length_of_takeLiteral {atEnd : Fault} {cs rest : List Char} {literal : Literal}
    (h : takeLiteral atEnd cs = .ok (literal, rest)) : rest.length < cs.length := by
  unfold takeLiteral at h
  split at h
  · exact Nat.lt_succ_of_lt (length_of_takeUnsigned h)
  · exact length_of_takeUnsigned h

/-- What a number is worth. -/
inductive Number
  /-- Written with digits alone, and within sixty-four bits. -/
  | integer (n : Int)
  | decimal (x : Float)

/-- Reads digits after `n` until the value would exceed `limit`; gives the value and the digits that
are left. -/
def accumulate (limit : Nat) : (n : Nat) → List Char → Nat × List Char
  | n, [] => (n, [])
  | n, c :: cs =>
    let next := n * 10 + (c.toNat - 48)
    if limit < next then (n, c :: cs) else accumulate limit next cs

/-- `x * 10 ^ scale`, one multiplication or division by a power of ten that a double can hold at a
time. -/
def scaled : (fuel : Nat) → (x : Float) → (scale : Int) → Except Fault Float
  | 0, x, _ => .ok x
  | fuel + 1, x, scale =>
    if scale.natAbs ≤ 308 then
      let power := Float.ofScientific 1 false scale.natAbs
      if 0 ≤ scale then
        if (x * power).isInf then .error .numberTooLarge else .ok (x * power)
      else .ok (x / power)
    else if x == 0 then .ok x
    else if 0 ≤ scale then .error .numberTooLarge
    else scaled fuel (x / Float.ofScientific 1 false 308) (scale + 308)

/-- The double nearest to a whole number below `2 ^ 64`, with a sign. -/
def signed (negative : Bool) (x : Float) : Float := if negative then -x else x

/-- What a number with a point, an exponent or too many digits is worth. The first digits that fit
sixty-four bits count, further ones before the point only shift it. -/
def Literal.decimal (l : Literal) : Except Fault Float :=
  let limit := UInt64.size - 1
  let (n, dropped) := accumulate limit 0 l.whole
  let fraction := l.fraction.getD []
  let (n, unread) := accumulate limit n fraction
  let scale : Int := (dropped.length : Int) - (fraction.length - unread.length : Nat)
  let x := (UInt64.ofNat n).toFloat
  let finish (scale : Int) : Except Fault Float :=
    match scaled 8 x scale with
    | .ok y => .ok (signed l.negative y)
    | .error fault => .error fault
  match l.exponent with
  | none => finish scale
  | some (down, digits) =>
    match accumulate (Nat.pow 2 31 - 1) 0 digits with
    | (e, []) => finish (if down then scale - e else scale + e)
    | (_, _ :: _) =>
      if n ≠ 0 ∧ ¬down then .error .numberTooLarge else .ok (signed l.negative 0)

/-- What a number is worth. Zero with a sign, and what does not fit sixty-four bits, is no
integer. -/
def Literal.value (l : Literal) : Except Fault Number :=
  let n := (accumulate (UInt64.size - 1) 0 l.whole).1
  let isWhole := l.fraction.isNone && l.exponent.isNone
    && (accumulate (UInt64.size - 1) 0 l.whole).2.isEmpty
  if isWhole && !l.negative then .ok (.integer n)
  else if isWhole && 0 < n && n ≤ Nat.pow 2 63 then .ok (.integer (-n))
  else
    match l.decimal with
    | .ok x => .ok (.decimal x)
    | .error fault => .error fault

/-- Numbers are told with a point; those below one hundred-thousandth and from ten to the sixteenth
on have an exponent. -/
def numberLayout : Decimal.Layout := ⟨-5, 15⟩

/-! ## Texts -/

/-- Four hexadecimal digits. A text with fewer than four octets left has ended. -/
def takeHex4 : List Char → Except Fault (Nat × List Char)
  | a :: b :: c :: d :: cs =>
    match Text.digit? 16 a, Text.digit? 16 b, Text.digit? 16 c, Text.digit? 16 d with
    | some a, some b, some c, some d => .ok (((a * 16 + b) * 16 + c) * 16 + d, cs)
    | _, _, _, _ => .error .badEscape
  | cs => if (String.ofList cs).utf8ByteSize < 4 then .error .endInText else .error .badEscape

/-- The first half of a surrogate pair. -/
def isLead (n : Nat) : Bool := 0xD800 ≤ n && n ≤ 0xDBFF

/-- The second half of a surrogate pair. -/
def isTrail (n : Nat) : Bool := 0xDC00 ≤ n && n ≤ 0xDFFF

/-- The second half of the pair that begins with `lead`. -/
def takeTrail (lead : Nat) : List Char → Except Fault (Char × List Char)
  | [] => .error .endInText
  | '\\' :: [] => .error .endInText
  | '\\' :: 'u' :: cs =>
    match takeHex4 cs with
    | .error fault => .error fault
    | .ok (trail, rest) =>
      if isTrail trail then
        .ok (Char.ofNat ((lead - 0xD800) * 1024 + (trail - 0xDC00) + 0x10000), rest)
      else .error .loneSurrogate
  | _ => .error .halfPair

/-- The character that `\u` and what follows it stand for. -/
def takeUnicode (cs : List Char) : Except Fault (Char × List Char) :=
  match takeHex4 cs with
  | .error fault => .error fault
  | .ok (n, rest) =>
    if isTrail n then .error .loneSurrogate
    else if isLead n then takeTrail n rest
    else .ok (Char.ofNat n, rest)

/-- The character a letter after the backslash stands for. -/
def simpleEscape? (c : Char) : Option Char :=
  if c = '"' then some '"'
  else if c = '\\' then some '\\'
  else if c = '/' then some '/'
  else if c = 'b' then some '\x08'
  else if c = 'f' then some '\x0c'
  else if c = 'n' then some '\n'
  else if c = 'r' then some '\r'
  else if c = 't' then some '\t'
  else none

/-- The character that what follows a backslash stands for. -/
def takeEscape : List Char → Except Fault (Char × List Char)
  | [] => .error .endInText
  | c :: cs =>
    if c = 'u' then takeUnicode cs
    else
      match simpleEscape? c with
      | some d => .ok (d, cs)
      | none => .error .badEscape

theorem length_of_takeHex4 {cs rest : List Char} {n : Nat} (h : takeHex4 cs = .ok (n, rest)) :
    rest.length < cs.length := by
  unfold takeHex4 at h
  split at h
  · split at h
    · simp only [Except.ok.injEq, Prod.mk.injEq] at h
      obtain ⟨-, rfl⟩ := h
      simp only [List.length_cons]
      omega
    · cases h
  · split at h <;> cases h

/-- The second half of a pair is written as an escape of its own. -/
theorem length_of_takeTrail {lead : Nat} {cs rest : List Char} {c : Char}
    (h : takeTrail lead cs = .ok (c, rest)) : rest.length < cs.length := by
  unfold takeTrail at h
  split at h
  · cases h
  · cases h
  · split at h
    · cases h
    · rename_i hx
      split at h
      · simp only [Except.ok.injEq, Prod.mk.injEq] at h
        obtain ⟨-, rfl⟩ := h
        have := length_of_takeHex4 hx
        simp only [List.length_cons]
        omega
      · cases h
  · cases h

theorem length_of_takeUnicode {cs rest : List Char} {c : Char}
    (h : takeUnicode cs = .ok (c, rest)) : rest.length < cs.length := by
  unfold takeUnicode at h
  split at h
  · cases h
  · rename_i hx
    have := length_of_takeHex4 hx
    split at h
    · cases h
    · split at h
      · -- half a pair is followed by the other half
        have := length_of_takeTrail h
        omega
      · cases h
        assumption

/-- What follows a backslash is a letter, and for some letters more. -/
theorem length_of_takeEscape {cs rest : List Char} {c : Char}
    (h : takeEscape cs = .ok (c, rest)) : rest.length < cs.length := by
  unfold takeEscape at h
  split at h
  · cases h
  · split at h
    · exact Nat.lt_succ_of_lt (length_of_takeUnicode h)
    · split at h
      · cases h; simp
      · cases h

/-- A text after its opening quote; `done` holds the characters before, last first. -/
def takeText (done : List Char) : List Char → Except Fault (List Char × List Char)
  | [] => .error .endInText
  | c :: cs =>
    if c = '"' then .ok (done.reverse, cs)
    else if c = '\\' then
      match _h : takeEscape cs with
      | .error fault => .error fault
      | .ok (d, rest) => takeText (d :: done) rest
    else if c.toNat < 0x20 then .error .controlCharacter
    else takeText (c :: done) cs
termination_by cs => cs.length
decreasing_by
  all_goals simp_wf
  · have := length_of_takeEscape _h
    omega

/-- **A text takes its closing quote at least.** -/
theorem length_of_takeText {done cs text rest : List Char}
    (h : takeText done cs = .ok (text, rest)) : rest.length < cs.length := by
  fun_induction takeText done cs with
  | case1 => cases h
  | case2 => cases h; simp
  | case3 => cases h
  | case4 done cs d rest' he _ ih =>
    have h1 := ih h
    have h2 := length_of_takeEscape he
    simp only [List.length_cons]
    omega
  | case5 => cases h
  | case6 done c cs _ _ _ ih =>
    have h1 := ih h
    simp only [List.length_cons]
    omega

/-- What follows a backslash in a text that nobody reads: half a pair will do. -/
def skipEscape : List Char → Except Fault (List Char)
  | [] => .error .endInText
  | c :: cs =>
    if c = 'u' then
      match takeHex4 cs with
      | .error fault => .error fault
      | .ok (_, rest) => .ok rest
    else
      match simpleEscape? c with
      | some _ => .ok cs
      | none => .error .badEscape

theorem length_of_skipEscape {cs rest : List Char} (h : skipEscape cs = .ok rest) :
    rest.length < cs.length := by
  unfold skipEscape at h
  split at h
  · cases h
  · split at h
    · split at h
      · cases h
      · rename_i hx
        cases h
        exact Nat.lt_succ_of_lt (length_of_takeHex4 hx)
    · split at h
      · cases h; simp
      · cases h

/-- A text that nobody reads, after its opening quote. -/
def skipText : List Char → Except Fault (List Char)
  | [] => .error .endInText
  | c :: cs =>
    if c = '"' then .ok cs
    else if c = '\\' then
      match _h : skipEscape cs with
      | .error fault => .error fault
      | .ok rest => skipText rest
    else if c.toNat < 0x20 then .error .controlCharacter
    else skipText cs
termination_by cs => cs.length
decreasing_by
  all_goals simp_wf
  · have := length_of_skipEscape _h
    omega

/-- A text that nobody reads takes as much. -/
theorem length_of_skipText {cs rest : List Char} (h : skipText cs = .ok rest) :
    rest.length < cs.length := by
  fun_induction skipText cs with
  | case1 => cases h
  | case2 => cases h; simp
  | case3 => cases h
  | case4 cs rest' he _ ih =>
    have h1 := ih h
    have h2 := length_of_skipEscape he
    simp only [List.length_cons]
    omega
  | case5 => cases h
  | case6 c cs _ _ _ ih =>
    have h1 := ih h
    simp only [List.length_cons]
    omega

end Switchboard.Json
