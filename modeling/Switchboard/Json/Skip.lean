import Switchboard.Json.Token

/-!
# Values that nobody reads

The value of an unknown member is stepped over, whatever its depth: only its form is checked. The
walk keeps the brackets that are still open on a stack and takes at least one character at every
step, so it ends with the text.
-/

namespace Switchboard.Json

/-- What is open around a value. -/
inductive Bracket
  | list | object
  deriving DecidableEq, Repr

namespace Bracket

/-- The fault of a text that ends inside. -/
def endFault : Bracket → Fault
  | list => .endInList
  | object => .endInObject

/-- The fault of an element that neither ends nor is followed by a comma. -/
def separatorFault : Bracket → Fault
  | list => .expectedCommaOrBracket
  | object => .expectedCommaOrBrace

def closing : Bracket → Char
  | list => ']'
  | object => '}'

end Bracket

/-- A colon, blanks before it allowed. -/
def expectColon (cs : List Char) : Except Fault (List Char) :=
  match skipBlanks cs with
  | [] => .error .endInObject
  | c :: rest => if c = ':' then .ok rest else .error .expectedColon

theorem length_of_expectColon {cs rest : List Char} (h : expectColon cs = .ok rest) :
    rest.length < cs.length := by
  unfold expectColon at h
  split at h
  · cases h
  · rename_i c cs' hb
    have := length_skipBlanks_le cs
    rw [hb] at this
    split at h
    · cases h
      exact this
    · cases h

/-- Steps over a value that is no list and no object; of those only the opening bracket. -/
def skipStart (cs : List Char) : Except Fault (Option Bracket × List Char) :=
  match skipBlanks cs with
  | [] => .error .endInValue
  | c :: rest =>
    if c = 'n' then (expectWord ['u', 'l', 'l'] rest).map (none, ·)
    else if c = 't' then (expectWord ['r', 'u', 'e'] rest).map (none, ·)
    else if c = 'f' then (expectWord ['a', 'l', 's', 'e'] rest).map (none, ·)
    else if c = '"' then (skipText rest).map (none, ·)
    else if c = '[' then .ok (some .list, rest)
    else if c = '{' then .ok (some .object, rest)
    else if c = '-' ∨ c.isDigit then (takeLiteral .badNumber (c :: rest)).map ((none, ·.2))
    else .error .expectedValue

/-- Steps over what comes before the value of an element: in an object its key and colon. -/
def skipKey : Bracket → List Char → Except Fault (List Char)
  | .list, cs => .ok cs
  | .object, cs =>
    match skipBlanks cs with
    | [] => .error .endInObject
    | c :: rest =>
      if c = '"' then
        match skipText rest with
        | .error fault => .error fault
        | .ok rest => expectColon rest
      else .error .keyNotText

/-- After an opening bracket: whether the closing one follows at once, else the first element has
been entered. -/
def skipOpened (bracket : Bracket) (cs : List Char) : Except Fault (Bool × List Char) :=
  match skipBlanks cs with
  | [] => .error bracket.endFault
  | c :: rest =>
    if c = bracket.closing then .ok (true, rest)
    else (skipKey bracket (c :: rest)).map (false, ·)

/-- After an element: whether the closing bracket follows, else the next element has been
entered. -/
def skipSeparator (bracket : Bracket) (cs : List Char) : Except Fault (Bool × List Char) :=
  match skipBlanks cs with
  | [] => .error bracket.endFault
  | c :: rest =>
    if c = ',' then (skipKey bracket rest).map (false, ·)
    else if c = bracket.closing then .ok (true, rest)
    else .error bracket.separatorFault

/-- A result that was put into another form was a result before. -/
theorem map_eq_ok {ε α β : Type} {x : Except ε α} {f : α → β} {b : β} (h : x.map f = .ok b) :
    ∃ a, x = .ok a ∧ f a = b := by
  cases x with
  | error => cases h
  | ok a => exact ⟨a, rfl, by cases h; rfl⟩

/-- What was read is paired with what is left of the text. -/
theorem eq_ok_of_map_pair {ε α β : Type} {x : Except ε β} {a a' : α} {b : β}
    (h : x.map (a, ·) = .ok (a', b)) : x = .ok b := by
  obtain ⟨b', hx, heq⟩ := map_eq_ok h
  cases heq
  exact hx

/-- **The beginning of a value takes one character at least.** -/
theorem length_of_skipStart {cs rest : List Char} {bracket : Option Bracket}
    (h : skipStart cs = .ok (bracket, rest)) : rest.length < cs.length := by
  unfold skipStart at h
  split at h
  · cases h
  · rename_i c cs' hb
    have hle := length_skipBlanks_le cs
    rw [hb, List.length_cons] at hle
    split at h
    · have := length_of_expectWord (eq_ok_of_map_pair h)
      omega
    split at h
    · have := length_of_expectWord (eq_ok_of_map_pair h)
      omega
    split at h
    · have := length_of_expectWord (eq_ok_of_map_pair h)
      omega
    split at h
    · have := length_of_skipText (eq_ok_of_map_pair h)
      omega
    split at h
    · cases h
      omega
    split at h
    · cases h
      omega
    split at h
    · obtain ⟨⟨l, r⟩, hr, he⟩ := map_eq_ok h
      cases he
      have := length_of_takeLiteral hr
      simp only [List.length_cons] at this
      simp only
      omega
    · cases h

/-- An element of a list has no key, so nothing may be taken. -/
theorem length_of_skipKey {bracket : Bracket} {cs rest : List Char}
    (h : skipKey bracket cs = .ok rest) : rest.length ≤ cs.length := by
  have hle := length_skipBlanks_le cs
  cases bracket with
  | list => cases h; exact Nat.le_refl _
  | object =>
    rw [skipKey] at h
    split at h
    · cases h
    · rename_i hb
      rw [hb, List.length_cons] at hle
      split at h
      · split at h
        · cases h
        · rename_i ht
          have := length_of_skipText ht
          have := length_of_expectColon h
          omega
      · cases h

theorem length_of_skipOpened {bracket : Bracket} {cs rest : List Char} {closed : Bool}
    (h : skipOpened bracket cs = .ok (closed, rest)) : rest.length ≤ cs.length := by
  unfold skipOpened at h
  have hle := length_skipBlanks_le cs
  split at h
  · cases h
  · rename_i hb
    rw [hb] at hle
    split at h
    · cases h
      simp only [List.length_cons] at hle
      omega
    · have := length_of_skipKey (eq_ok_of_map_pair h)
      omega

/-- After an element there is a comma or a bracket to take. -/
theorem length_of_skipSeparator {bracket : Bracket} {cs rest : List Char} {closed : Bool}
    (h : skipSeparator bracket cs = .ok (closed, rest)) : rest.length < cs.length := by
  unfold skipSeparator at h
  have hle := length_skipBlanks_le cs
  split at h
  · cases h
  · rename_i hb
    rw [hb, List.length_cons] at hle
    split at h
    · have := length_of_skipKey (eq_ok_of_map_pair h)
      omega
    split at h
    · cases h; omega
    · cases h

/-- Where the walk stands. -/
inductive Place
  /-- Before a value. -/
  | value
  /-- After one. -/
  | after
  deriving DecidableEq, Repr

/-- Walks on until every bracket of `stack` is closed. -/
def walk (place : Place) (stack : List Bracket) (cs : List Char) : Except Fault (List Char) :=
  match place with
  | .value =>
    match _h : skipStart cs with
    | .error fault => .error fault
    | .ok (none, rest) => walk .after stack rest
    | .ok (some bracket, rest) =>
      match _h' : skipOpened bracket rest with
      | .error fault => .error fault
      | .ok (true, rest) => walk .after stack rest
      | .ok (false, rest) => walk .value (bracket :: stack) rest
  | .after =>
    match stack with
    | [] => .ok cs
    | bracket :: stack =>
      match _h : skipSeparator bracket cs with
      | .error fault => .error fault
      | .ok (true, rest) => walk .after stack rest
      | .ok (false, rest) => walk .value (bracket :: stack) rest
termination_by cs.length
decreasing_by
  · exact length_of_skipStart _h
  · exact Nat.lt_of_le_of_lt (length_of_skipOpened _h') (length_of_skipStart _h)
  · exact Nat.lt_of_le_of_lt (length_of_skipOpened _h') (length_of_skipStart _h)
  · exact length_of_skipSeparator _h
  · exact length_of_skipSeparator _h

/-- Steps over a value. -/
def skipValue (cs : List Char) : Except Fault (List Char) := walk .value [] cs

/-- A walk takes what it steps over, and a value has one character at least. -/
theorem length_of_walk {place : Place} {stack : List Bracket} {cs rest : List Char}
    (h : walk place stack cs = .ok rest) :
    rest.length ≤ cs.length ∧ (place = .value → rest.length < cs.length) := by
  -- on the steps of the walk, each of which takes a token; behind the last value nothing is taken
  fun_induction walk place stack cs with
  | case1 => cases h
  | case2 stack cs rest' hs ih =>
    have := ih h
    have := length_of_skipStart hs
    exact ⟨by omega, fun _ => by omega⟩
  | case3 => cases h
  | case4 stack cs bracket rest' hs rest'' ho ih =>
    have := ih h
    have := length_of_skipStart hs
    have := length_of_skipOpened ho
    exact ⟨by omega, fun _ => by omega⟩
  | case5 stack cs bracket rest' hs rest'' ho ih =>
    have := ih h
    have := length_of_skipStart hs
    have := length_of_skipOpened ho
    exact ⟨by omega, fun _ => by omega⟩
  | case6 => cases h; exact ⟨Nat.le_refl _, by simp⟩
  | case7 => cases h
  | case8 cs bracket stack rest' hs ih =>
    have := ih h
    have := length_of_skipSeparator hs
    exact ⟨by omega, by simp⟩
  | case9 cs bracket stack rest' hs ih =>
    have := ih h
    have := length_of_skipSeparator hs
    exact ⟨by omega, by simp⟩

theorem length_of_skipValue {cs rest : List Char} (h : skipValue cs = .ok rest) :
    rest.length < cs.length :=
  (length_of_walk h).2 rfl

end Switchboard.Json
