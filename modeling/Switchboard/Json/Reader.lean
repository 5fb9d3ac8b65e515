import Switchboard.Json.Skip

/-!
# Typed readers

A reader takes one value of a given shape off the front of a text. It takes at least one character
when it succeeds, which is part of its type: lists and records of readers end because their
elements do.

A record is read from an object or from a list. In an object its fields may stand in any order,
each at most once, and unknown members are stepped over; in a list they stand in order and the last
ones may be missing. What a missing field means is for the record to say.
-/

namespace Switchboard.Json

/-- Takes a value off the front of a text. -/
structure Reader (α : Type) where
  run : List Char → Except Fault (α × List Char)
  shorter : ∀ {cs a rest}, run cs = .ok (a, rest) → rest.length < cs.length

/-- A reader whose values are put into another form. -/
def Reader.map {α β : Type} (f : α → β) (reader : Reader α) : Reader β where
  run cs :=
    match reader.run cs with
    | .error fault => .error fault
    | .ok (a, rest) => .ok (f a, rest)
  shorter := by
    intro cs b rest h
    split at h
    · cases h
    · rename_i ha
      cases h
      exact reader.shorter ha

/-- The number at the front of a text. -/
def takeNumber (cs : List Char) : Except Fault (Number × List Char) :=
  match takeLiteral .endInValue cs with
  | .error fault => .error fault
  | .ok (literal, rest) =>
    match literal.value with
    | .error fault => .error fault
    | .ok number => .ok (number, rest)

theorem length_of_takeNumber {cs rest : List Char} {number : Number}
    (h : takeNumber cs = .ok (number, rest)) : rest.length < cs.length := by
  unfold takeNumber at h
  split at h
  · cases h
  · rename_i hl
    split at h
    · cases h
    · cases h
      exact length_of_takeLiteral hl

/-- How a number is told when another shape was asked for. -/
def Number.found : Number → Found
  | .integer n => .integer n
  | .decimal x => .decimal (numberLayout.text x)

/-- The fault of a value that is not what was asked for, `cs` beginning with the value. Its form is
checked first, as far as the opening bracket of a list or an object. -/
def mismatch (expected : String) (cs : List Char) : Fault :=
  let told (found : Except Fault Found) : Fault :=
    match found with
    | .ok found => .wrongType found expected
    | .error fault => fault
  match cs with
  | [] => .endInValue
  | c :: rest =>
    if c = 'n' then told ((expectWord ['u', 'l', 'l'] rest).map fun _ => .null)
    else if c = 't' then told ((expectWord ['r', 'u', 'e'] rest).map fun _ => .flag true)
    else if c = 'f' then told ((expectWord ['a', 'l', 's', 'e'] rest).map fun _ => .flag false)
    else if c = '"' then told ((takeText [] rest).map fun (text, _) => .text (String.ofList text))
    else if c = '[' then .wrongType .sequence expected
    else if c = '{' then .wrongType .map expected
    else if c = '-' ∨ c.isDigit then told ((takeNumber (c :: rest)).map fun (n, _) => n.found)
    else .expectedValue

/-! ## Single values -/

/-- Skips blanks and reads a value by its first character. -/
def runText (cs : List Char) : Except Fault (String × List Char) :=
  match skipBlanks cs with
  | [] => .error .endInValue
  | c :: rest =>
    if c = '"' then
      match takeText [] rest with
      | .ok (text, rest) => .ok (String.ofList text, rest)
      | .error fault => .error fault
    else .error (mismatch "a string" (c :: rest))

theorem length_of_skipBlanks {cs rest : List Char} {c : Char} (h : skipBlanks cs = c :: rest) :
    rest.length < cs.length := by
  have := length_skipBlanks_le cs
  rw [h, List.length_cons] at this
  exact this

/-- A text. -/
def text : Reader String where
  run := runText
  shorter := by
    intro cs a rest h
    unfold runText at h
    split at h
    · cases h
    · rename_i hb
      have := length_of_skipBlanks hb
      split at h
      · split at h
        · rename_i ht
          cases h
          have := length_of_takeText ht
          omega
        · cases h
      · cases h

def runFlag (cs : List Char) : Except Fault (Bool × List Char) :=
  match skipBlanks cs with
  | [] => .error .endInValue
  | c :: rest =>
    if c = 't' then (expectWord ['r', 'u', 'e'] rest).map (true, ·)
    else if c = 'f' then (expectWord ['a', 'l', 's', 'e'] rest).map (false, ·)
    else .error (mismatch "a boolean" (c :: rest))

/-- A flag. -/
def flag : Reader Bool where
  run := runFlag
  shorter := by
    intro cs a rest h
    unfold runFlag at h
    split at h
    · cases h
    · rename_i hb
      have := length_of_skipBlanks hb
      split at h
      · have := length_of_expectWord (eq_ok_of_map_pair h)
        omega
      split at h
      · have := length_of_expectWord (eq_ok_of_map_pair h)
        omega
      · cases h

def runInteger (low high : Int) (expected : String) (cs : List Char) :
    Except Fault (Int × List Char) :=
  match skipBlanks cs with
  | [] => .error .endInValue
  | c :: rest =>
    if c = '-' ∨ c.isDigit then
      match takeNumber (c :: rest) with
      | .error fault => .error fault
      | .ok (.decimal x, _) => .error (.wrongType (Number.decimal x).found expected)
      | .ok (.integer n, rest) =>
        if low ≤ n ∧ n ≤ high then .ok (n, rest) else .error (.outOfRange n expected)
    else .error (mismatch expected (c :: rest))

/-- An integer from `low` to `high`, written without fraction and exponent. -/
def integer (low high : Int) (expected : String) : Reader Int where
  run := runInteger low high expected
  shorter := by
    intro cs a rest h
    unfold runInteger at h
    split at h
    · cases h
    · rename_i hb
      have := length_skipBlanks_le cs
      rw [hb] at this
      split at h
      · split at h
        · cases h
        · cases h
        · rename_i hn
          split at h
          · cases h
            have := length_of_takeNumber hn
            omega
          · cases h
      · cases h

/-! ## Lists -/

/-- Whether a list goes on before its element number `first`, where `first` tells the first one from
the others: the rest after the closing bracket, or the rest from the element on. -/
def listGoesOn (first : Bool) (cs : List Char) : Except Fault (Bool × List Char) :=
  match skipBlanks cs with
  | [] => .error .endInList
  | c :: rest =>
    if c = ']' then .ok (false, rest)
    else if first then .ok (true, c :: rest)
    else if c = ',' then
      match skipBlanks rest with
      | [] => .error .endInValue
      | d :: rest => if d = ']' then .error .trailingComma else .ok (true, d :: rest)
    else .error .expectedCommaOrBracket

/-- An element is left where it begins, so only a closing bracket is sure to be taken. -/
theorem length_of_listGoesOn {first : Bool} {cs rest : List Char} {more : Bool}
    (h : listGoesOn first cs = .ok (more, rest)) :
    rest.length ≤ cs.length ∧ (more = false → rest.length < cs.length) := by
  unfold listGoesOn at h
  split at h
  · cases h
  · rename_i hb
    have := length_of_skipBlanks hb
    split at h
    · cases h; exact ⟨by omega, fun _ => this⟩
    split at h
    · cases h; exact ⟨by simp only [List.length_cons]; omega, by simp⟩
    split at h
    · split at h
      · cases h
      · rename_i hb'
        have := length_of_skipBlanks hb'
        split at h
        · cases h
        · cases h; exact ⟨by simp only [List.length_cons]; omega, by simp⟩
    · cases h

/-- The elements of a list up to its closing bracket; `done` holds those before, last first. -/
def runElements {α : Type} (item : Reader α) (first : Bool) (done : List α) (cs : List Char) :
    Except Fault (List α × List Char) :=
  match _h : listGoesOn first cs with
  | .error fault => .error fault
  | .ok (false, rest) => .ok (done.reverse, rest)
  | .ok (true, rest) =>
    match _h' : item.run rest with
    | .error fault => .error fault
    | .ok (a, rest) => runElements item false (a :: done) rest
termination_by cs.length
decreasing_by exact Nat.lt_of_lt_of_le (item.shorter _h') (length_of_listGoesOn _h).1

/-- **The elements of a list take the closing bracket at least.** -/
theorem length_of_runElements {α : Type} {item : Reader α} {first : Bool} {done as : List α}
    {cs rest : List Char} (h : runElements item first done cs = .ok (as, rest)) :
    rest.length < cs.length := by
  fun_induction runElements item first done cs with
  | case1 => cases h
  | case2 first done cs rest' hl => cases h; exact (length_of_listGoesOn hl).2 rfl
  | case3 => cases h
  | case4 first done cs rest' hl a rest'' hi ih =>
    have := ih h
    have := item.shorter hi
    have := (length_of_listGoesOn hl).1
    omega

def runList {α : Type} (item : Reader α) (cs : List Char) : Except Fault (List α × List Char) :=
  match skipBlanks cs with
  | [] => .error .endInValue
  | c :: rest =>
    if c = '[' then runElements item true [] rest
    else .error (mismatch "a sequence" (c :: rest))

/-- A list of values of one shape. -/
def list {α : Type} (item : Reader α) : Reader (List α) where
  run := runList item
  shorter := by
    intro cs a rest h
    unfold runList at h
    split at h
    · cases h
    · rename_i hb
      have := length_of_skipBlanks hb
      split at h
      · have := length_of_runElements h
        omega
      · cases h

/-! ## Records -/

/-- The shape of a record: its fields in order, and how each is read into a record in progress. -/
structure Shape (ι σ : Type) where
  /-- What the record is called when something else stands in its place. -/
  expected : String
  fields : List ι
  name : ι → String
  read : ι → σ → Reader σ

/-- Whether an object goes on: the rest after the closing brace, or the rest after the opening
quote of the next key. -/
def objectGoesOn (first : Bool) (cs : List Char) : Except Fault (Bool × List Char) :=
  match skipBlanks cs with
  | [] => .error .endInObject
  | c :: rest =>
    if c = '}' then .ok (false, rest)
    else if first then
      if c = '"' then .ok (true, rest) else .error .keyNotText
    else if c = ',' then
      match skipBlanks rest with
      | [] => .error .endInValue
      | d :: rest =>
        if d = '"' then .ok (true, rest)
        else if d = '}' then .error .trailingComma
        else .error .keyNotText
    else .error .expectedCommaOrBrace

/-- A key is entered behind its opening quote, so a character is taken in any case. -/
theorem length_of_objectGoesOn {first : Bool} {cs rest : List Char} {more : Bool}
    (h : objectGoesOn first cs = .ok (more, rest)) : rest.length < cs.length := by
  unfold objectGoesOn at h
  split at h
  · cases h
  · rename_i hb
    have := length_of_skipBlanks hb
    split at h
    · cases h; exact this
    split at h
    · split at h
      · cases h; exact this
      · cases h
    split at h
    · split at h
      · cases h
      · rename_i hb'
        have := length_of_skipBlanks hb'
        split at h
        · cases h; omega
        split at h
        · cases h
        · cases h
    · cases h

/-- The key of a member, after its opening quote, and its colon. -/
def takeKey {ι σ : Type} [DecidableEq ι] (shape : Shape ι σ) (seen : List ι) (cs : List Char) :
    Except Fault (Option ι × List Char) :=
  match takeText [] cs with
  | .error fault => .error fault
  | .ok (key, rest) =>
    let field := shape.fields.find? fun i => shape.name i == String.ofList key
    match field with
    | some i =>
      if i ∈ seen then .error (.duplicateField (shape.name i))
      else (expectColon rest).map (some i, ·)
    | none => (expectColon rest).map (none, ·)

theorem length_of_takeKey {ι σ : Type} [DecidableEq ι] {shape : Shape ι σ} {seen : List ι}
    {cs rest : List Char} {field : Option ι}
    (h : takeKey shape seen cs = .ok (field, rest)) : rest.length < cs.length := by
  unfold takeKey at h
  split at h
  · cases h
  · rename_i ht
    have := length_of_takeText ht
    simp only at h
    split at h
    · split at h
      · cases h
      · have := length_of_expectColon (eq_ok_of_map_pair h)
        omega
    · have := length_of_expectColon (eq_ok_of_map_pair h)
      omega

/-- The members of an object up to its closing brace, read into `s`. -/
def runMembers {ι σ : Type} [DecidableEq ι] (shape : Shape ι σ) (first : Bool) (seen : List ι)
    (s : σ) (cs : List Char) : Except Fault (σ × List Char) :=
  match _h : objectGoesOn first cs with
  | .error fault => .error fault
  | .ok (false, rest) => .ok (s, rest)
  | .ok (true, rest) =>
    match _hk : takeKey shape seen rest with
    | .error fault => .error fault
    | .ok (some i, rest) =>
      match _hv : (shape.read i s).run rest with
      | .error fault => .error fault
      | .ok (next, rest) => runMembers shape false (i :: seen) next rest
    | .ok (none, rest) =>
      match _hv : skipValue rest with
      | .error fault => .error fault
      | .ok rest => runMembers shape false seen s rest
termination_by cs.length
decreasing_by
  · have := length_of_objectGoesOn _h
    have := length_of_takeKey _hk
    have := (shape.read i s).shorter _hv
    omega
  · have := length_of_objectGoesOn _h
    have := length_of_takeKey _hk
    have := length_of_skipValue _hv
    omega

/-- **The members of an object take the closing brace at least.** -/
theorem length_of_runMembers {ι σ : Type} [DecidableEq ι] {shape : Shape ι σ} {first : Bool}
    {seen : List ι} {s s' : σ} {cs rest : List Char}
    (h : runMembers shape first seen s cs = .ok (s', rest)) : rest.length < cs.length := by
  fun_induction runMembers shape first seen s cs with
  | case1 => cases h
  | case2 first seen s cs rest' ho => cases h; exact length_of_objectGoesOn ho
  | case3 => cases h
  | case4 => cases h
  | case5 first seen s cs rest' ho i rest'' hk s'' rest''' hv ih =>
    have := ih h
    have := length_of_objectGoesOn ho
    have := length_of_takeKey hk
    have := (shape.read i s).shorter hv
    omega
  | case6 => cases h
  | case7 first seen s cs rest' ho rest'' hk rest''' hv ih =>
    have := ih h
    have := length_of_objectGoesOn ho
    have := length_of_takeKey hk
    have := length_of_skipValue hv
    omega

/-- The closing bracket of a list whose elements have all been read. -/
def endList (cs : List Char) : Except Fault (List Char) :=
  match skipBlanks cs with
  | [] => .error .endInList
  | c :: rest =>
    if c = ']' then .ok rest
    else if c = ',' then
      match skipBlanks rest with
      | d :: _ => if d = ']' then .error .trailingComma else .error .trailingCharacters
      | [] => .error .trailingCharacters
    else .error .trailingCharacters

theorem length_of_endList {cs rest : List Char} (h : endList cs = .ok rest) :
    rest.length < cs.length := by
  unfold endList at h
  split at h
  · cases h
  · rename_i hb
    have := length_of_skipBlanks hb
    split at h
    · cases h; exact this
    split at h
    · split at h
      · split at h <;> cases h
      · cases h
    · cases h

/-- The elements of a list that stands for a record, read into `s` field by field; gives how many
there were. -/
def runTuple {ι σ : Type} (shape : Shape ι σ) :
    (first : Bool) → (fields : List ι) → (s : σ) → List Char → Except Fault (σ × List Char)
  | _, [], s, cs => (endList cs).map (s, ·)
  | first, i :: fields, s, cs =>
    match listGoesOn first cs with
    | .error fault => .error fault
    | .ok (false, rest) => .ok (s, rest)
    | .ok (true, rest) =>
      match (shape.read i s).run rest with
      | .error fault => .error fault
      | .ok (s, rest) => runTuple shape false fields s rest

/-- **The fields of a record in a list take the closing bracket at least.** -/
theorem length_of_runTuple {ι σ : Type} {shape : Shape ι σ} {first : Bool} {fields : List ι}
    {s s' : σ} {cs rest : List Char}
    (h : runTuple shape first fields s cs = .ok (s', rest)) : rest.length < cs.length := by
  -- on the fields; the list may end before any of them
  induction fields generalizing first s cs with
  | nil =>
    exact length_of_endList (eq_ok_of_map_pair h)
  | cons i fields ih =>
    rw [runTuple] at h
    split at h
    · cases h
    · rename_i hl
      cases h
      exact (length_of_listGoesOn hl).2 rfl
    · rename_i hl
      split at h
      · cases h
      · rename_i hv
        have := ih h
        have := (shape.read i _).shorter hv
        have := (length_of_listGoesOn hl).1
        omega

/-- A record in progress read from an object or a list, completed by `finish`, which is told whether
it was an object. -/
def runRecord {ι σ α : Type} [DecidableEq ι] (shape : Shape ι σ) (start : σ)
    (finish : (fromObject : Bool) → σ → Except Fault α) (cs : List Char) :
    Except Fault (α × List Char) :=
  match skipBlanks cs with
  | [] => .error .endInValue
  | c :: rest =>
    if c = '{' then
      match runMembers shape true [] start rest with
      | .error fault => .error fault
      | .ok (s, rest) => (finish true s).map (·, rest)
    else if c = '[' then
      match runTuple shape true shape.fields start rest with
      | .error fault => .error fault
      | .ok (s, rest) => (finish false s).map (·, rest)
    else .error (mismatch shape.expected (c :: rest))

/-- A record. -/
def record {ι σ α : Type} [DecidableEq ι] (shape : Shape ι σ) (start : σ)
    (finish : (fromObject : Bool) → σ → Except Fault α) : Reader α where
  run := runRecord shape start finish
  shorter := by
    intro cs a rest h
    unfold runRecord at h
    split at h
    · cases h
    · rename_i hb
      have := length_of_skipBlanks hb
      split at h
      · split at h
        · cases h
        · rename_i hm
          obtain ⟨_, _, he⟩ := map_eq_ok h
          cases he
          have := length_of_runMembers hm
          omega
      split at h
      · split at h
        · cases h
        · rename_i hm
          obtain ⟨_, _, he⟩ := map_eq_ok h
          cases he
          have := length_of_runTuple hm
          omega
      · cases h

/-- Reads a whole text: one value, with nothing but blanks around it. -/
def Reader.parse {α : Type} (reader : Reader α) (cs : List Char) : Except Fault α :=
  match reader.run cs with
  | .error fault => .error fault
  | .ok (a, rest) => if (skipBlanks rest).isEmpty then .ok a else .error .trailingCharacters

end Switchboard.Json
