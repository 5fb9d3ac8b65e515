import Switchboard.Proofs.Json.Numbers

/-!
# Values that nobody reads are well-formed

`skipValue_sound` and `skipValue_complete`: what is stepped over is a well-formed value, of any depth,
and every well-formed value is stepped over as a whole.

The walk has no recursion to follow: it keeps the open brackets on a stack. So the one direction says
what a walk still takes to close its stack (`Closes`), by induction on the walk, and the other one says
by induction on the value that the walk gets behind it with the stack that it had before.
-/

namespace Switchboard.Json

variable {cs rest blank form : List Char} {bracket : Bracket} {stack : List Bracket}

/-! ## The pieces of a walk -/

theorem map_ok {α β : Type} {x : Except Fault α} {f : α → β} {a : α} (h : x = .ok a) :
    x.map f = .ok (f a) := by
  rw [h]
  rfl

theorem map_expectWord_append {α : Type} (f : List Char → α) (word rest : List Char) :
    (expectWord word (word ++ rest)).map f = .ok (f rest) :=
  map_ok (expectWord_iff.2 rfl)

/-- Blanks may stand before a colon. -/
theorem expectColon_iff :
    expectColon cs = .ok rest ↔ ∃ blank, Blank blank ∧ cs = blank ++ ':' :: rest := by
  constructor
  · intro h
    unfold expectColon at h
    split at h
    · cases h
    · next c rest' hskip =>
      split at h
      · next hc =>
        obtain rfl := Except.ok.inj h
        exact hc ▸ eq_of_skipBlanks hskip
      · cases h
  · rintro ⟨blank, hblank, rfl⟩
    rw [expectColon, skipBlanks_blank_cons hblank (by decide)]
    exact if_pos rfl

/-- A value that is no list and no object. -/
inductive IsScalar : List Char → Prop
  | word {cs : List Char} (h : cs ∈ ["null".toList, "true".toList, "false".toList]) : IsScalar cs
  | number {l : Literal} {cs : List Char} (h : IsNumber l cs) : IsScalar cs
  | text {cs : List Char} (h : Quoted IsText cs) : IsScalar cs

theorem IsScalar.wellFormed (h : IsScalar cs) : WellFormed cs := by
  cases h with
  | word h => exact .word h
  | number h => exact .number h
  | text h => exact .text h

/-- What the start of a value takes: a scalar, or an opening bracket. -/
def Started (cs rest : List Char) : Option Bracket → Prop
  | none => ∃ form, IsScalar form ∧ cs = form ++ rest
  | some bracket => cs = bracket.opening :: rest

/-- The start of a value is a scalar as a whole, or a bracket. -/
theorem skipStart_sound {opened : Option Bracket} (h : skipStart cs = .ok (opened, rest)) :
    ∃ blank cs', Blank blank ∧ Started cs' rest opened ∧ cs = blank ++ cs' := by
  unfold skipStart at h
  split at h
  · cases h
  · next c cs' hskip =>
    obtain ⟨blank, hblank, rfl⟩ := eq_of_skipBlanks hskip
    refine ⟨blank, c :: cs', hblank, ?_, rfl⟩
    -- three words begin a value, and they are read alike
    have hword : ∀ {word : List Char}, c :: word ∈ ["null".toList, "true".toList, "false".toList] →
        (expectWord word cs').map (none, ·) = .ok (opened, rest) →
        Started (c :: cs') rest opened := by
      intro word hmem h
      obtain ⟨rest', htaken, heq⟩ := map_eq_ok h
      cases heq
      exact ⟨c :: word, .word hmem, by rw [expectWord_iff.1 htaken, List.cons_append]⟩
    split at h
    · next hc =>
      subst hc
      exact hword (by decide) h
    split at h
    · next hc =>
      subst hc
      exact hword (by decide) h
    split at h
    · next hc =>
      subst hc
      exact hword (by decide) h
    split at h
    · next hc =>
      obtain ⟨rest', htaken, heq⟩ := map_eq_ok h
      cases heq
      obtain ⟨inner, hinner, rfl⟩ := skipText_iff.1 htaken
      exact ⟨_, .text ⟨inner, hinner, rfl⟩, by simp [hc]⟩
    split at h
    · next hc =>
      cases h
      rw [hc]
      rfl
    split at h
    · next hc =>
      cases h
      rw [hc]
      rfl
    split at h
    · obtain ⟨⟨l, rest'⟩, htaken, heq⟩ := map_eq_ok h
      cases heq
      obtain ⟨form, hform, htaken⟩ := takeLiteral_sound htaken
      exact ⟨form, .number hform, htaken⟩
    · cases h

theorem opening_not_blank (bracket : Bracket) :
    bracket.opening ∉ [' ', '\n', '\t', '\r'] := by
  cases bracket <;> decide

theorem closing_not_blank (bracket : Bracket) :
    bracket.closing ∉ [' ', '\n', '\t', '\r'] := by
  cases bracket <;> decide

theorem skipStart_opening (hblank : Blank blank) (bracket : Bracket) (cs : List Char) :
    skipStart (blank ++ bracket.opening :: cs) = .ok (some bracket, cs) := by
  rw [skipStart, skipBlanks_blank_cons hblank (opening_not_blank bracket)]
  cases bracket <;> rfl

/-- A number begins with a digit or a minus sign. -/
theorem IsNumber.starts {l : Literal} (h : IsNumber l form) :
    ∃ c cs, form = c :: cs ∧ (c = '-' ∨ c.isDigit = true) := by
  obtain ⟨c, digits, hc, hform⟩ := h.eq_append
  cases hnegative : l.negative with
  | true => exact ⟨'-', c :: digits, by rw [hform, hnegative]; rfl, .inl rfl⟩
  | false => exact ⟨c, digits, by rw [hform, hnegative]; rfl, .inr hc⟩

/-- What a number begins with, nothing else does. -/
theorem ne_of_starts_number {c d : Char} (hc : c = '-' ∨ c.isDigit = true)
    (hd : d ≠ '-' ∧ d.isDigit = false) : c ≠ d := by
  rintro rfl
  rcases hc with hc | hc
  · exact hd.1 hc
  · exact Bool.false_ne_true (hd.2.symm.trans hc)

theorem not_blank_of_starts_number {c : Char} (hc : c = '-' ∨ c.isDigit = true) :
    c ∉ [' ', '\n', '\t', '\r'] := by
  have hnot : ∀ d ∈ [' ', '\n', '\t', '\r'], d ≠ '-' ∧ d.isDigit = false := by simp
  exact fun hmem => ne_of_starts_number hc (hnot c hmem) rfl

/-- A scalar is stepped over at once. -/
theorem skipStart_scalar (hblank : Blank blank) (h : IsScalar form) (hrest : Ended rest) :
    skipStart (blank ++ form ++ rest) = .ok (none, rest) := by
  rw [List.append_assoc]
  cases h with
  | word h =>
    simp only [List.mem_cons, List.not_mem_nil, or_false] at h
    rcases h with rfl | rfl | rfl
    · show skipStart (blank ++ 'n' :: (['u', 'l', 'l'] ++ rest)) = _
      rw [skipStart, skipBlanks_blank_cons hblank (by decide)]
      exact map_expectWord_append _ ['u', 'l', 'l'] rest
    · show skipStart (blank ++ 't' :: (['r', 'u', 'e'] ++ rest)) = _
      rw [skipStart, skipBlanks_blank_cons hblank (by decide)]
      exact map_expectWord_append _ ['r', 'u', 'e'] rest
    · show skipStart (blank ++ 'f' :: (['a', 'l', 's', 'e'] ++ rest)) = _
      rw [skipStart, skipBlanks_blank_cons hblank (by decide)]
      exact map_expectWord_append _ ['a', 'l', 's', 'e'] rest
  | @number l _ h =>
    obtain ⟨c, cs, hform, hc⟩ := h.starts
    have hliteral : takeLiteral .badNumber (c :: (cs ++ rest)) = .ok (l, rest) := by
      rw [← List.cons_append, ← hform]
      exact takeLiteral_complete h hrest
    -- a number begins with nothing that begins another value
    have hne := fun d hd => ne_of_starts_number (d := d) hc hd
    rw [hform, List.cons_append, skipStart,
      skipBlanks_blank_cons hblank (not_blank_of_starts_number hc)]
    dsimp only
    rw [if_neg (hne _ (by decide)), if_neg (hne _ (by decide)), if_neg (hne _ (by decide)),
      if_neg (hne _ (by decide)), if_neg (hne _ (by decide)), if_neg (hne _ (by decide)), if_pos hc]
    exact map_ok hliteral
  | text h =>
    obtain ⟨inner, hinner, rfl⟩ := h
    have hskip : skipText (inner ++ ['"'] ++ rest) = .ok rest :=
      skipText_iff.2 ⟨inner, hinner, by simp⟩
    rw [List.cons_append, List.cons_append, skipStart, skipBlanks_blank_cons hblank (by decide)]
    exact map_ok hskip

/-! ## Items -/

/-- An item between brackets: a value, or a member of an object. -/
def IsItem : Bracket → List Char → Prop
  | .list, cs => WellFormed cs
  | .object, cs => ∃ key value, Quoted IsText key ∧ WellFormed value ∧ IsMember key value cs

/-- Items between brackets are a value. -/
theorem wellFormed_of_enclosed {items : List (List Char)}
    (hitems : ∀ item ∈ items, IsItem bracket item) (h : Enclosed bracket items cs) :
    WellFormed cs := by
  cases bracket with
  | list => exact .list hitems h
  | object =>
    -- members are told apart into keys and values
    have hmembers : ∃ members : List (List Char × List Char), (∀ m ∈ members, WellFormed m.2) ∧
        List.Forall₂ (MemberOf fun key form => key = form ∧ Quoted IsText form) members items := by
      clear h
      induction items with
      | nil => exact ⟨[], by simp, .nil⟩
      | cons item items ih =>
        obtain ⟨⟨key, value, hkey, hvalue, hmember⟩, hrest⟩ := List.forall_mem_cons.1 hitems
        obtain ⟨members, hvalues, hforms⟩ := ih hrest
        exact ⟨(key, value) :: members, List.forall_mem_cons.2 ⟨hvalue, hvalues⟩,
          .cons ⟨key, ⟨rfl, hkey⟩, hmember⟩ hforms⟩
    obtain ⟨members, hvalues, hforms⟩ := hmembers
    exact .object hvalues ⟨items, hforms, h⟩

/-- What comes before the value of an item, and the value, are an item. -/
theorem isItem_of_skipKey {tail : List Char} (h : skipKey bracket cs = .ok rest)
    (hblank : Blank blank) (hform : WellFormed form) (hrest : rest = blank ++ form ++ tail) :
    ∃ blank item, Blank blank ∧ IsItem bracket item ∧ cs = blank ++ item ++ tail := by
  cases bracket with
  | list =>
    obtain rfl := Except.ok.inj h
    exact ⟨blank, form, hblank, hform, hrest⟩
  | object =>
    rw [skipKey] at h
    split at h
    · cases h
    · next c cs' hskip =>
      obtain ⟨blank₁, hblank₁, rfl⟩ := eq_of_skipBlanks hskip
      split at h
      · next hc =>
        split at h
        · cases h
        · next rest' htext =>
          obtain ⟨inner, hinner, rfl⟩ := skipText_iff.1 htext
          obtain ⟨blank₂, hblank₂, rfl⟩ := expectColon_iff.1 h
          refine ⟨blank₁, _, hblank₁,
            ⟨_, form, ⟨inner, hinner, rfl⟩, hform, blank₂, blank, hblank₂, hblank, rfl⟩, ?_⟩
          simp [hc, hrest]
      · cases h

theorem skipOpened_true (h : skipOpened bracket cs = .ok (true, rest)) :
    ∃ blank, Blank blank ∧ cs = blank ++ bracket.closing :: rest := by
  unfold skipOpened at h
  split at h
  · cases h
  · next c cs' hskip =>
    split at h
    · next hc =>
      cases h
      exact hc ▸ eq_of_skipBlanks hskip
    · obtain ⟨rest', -, heq⟩ := map_eq_ok h
      cases heq

theorem skipOpened_false (h : skipOpened bracket cs = .ok (false, rest)) :
    ∃ blank cs', Blank blank ∧ cs = blank ++ cs' ∧ skipKey bracket cs' = .ok rest := by
  unfold skipOpened at h
  split at h
  · cases h
  · next c cs' hskip =>
    obtain ⟨blank, hblank, hcs⟩ := eq_of_skipBlanks hskip
    split at h
    · cases h
    · obtain ⟨rest', hkey, heq⟩ := map_eq_ok h
      cases heq
      exact ⟨blank, c :: cs', hblank, hcs, hkey⟩

theorem skipSeparator_true (h : skipSeparator bracket cs = .ok (true, rest)) :
    ∃ blank, Blank blank ∧ cs = blank ++ bracket.closing :: rest := by
  unfold skipSeparator at h
  split at h
  · cases h
  · next c cs' hskip =>
    split at h
    · obtain ⟨rest', -, heq⟩ := map_eq_ok h
      cases heq
    · split at h
      · next hc =>
        cases h
        exact hc ▸ eq_of_skipBlanks hskip
      · cases h

theorem skipSeparator_false (h : skipSeparator bracket cs = .ok (false, rest)) :
    ∃ blank cs', Blank blank ∧ cs = blank ++ ',' :: cs' ∧ skipKey bracket cs' = .ok rest := by
  unfold skipSeparator at h
  split at h
  · cases h
  · next c cs' hskip =>
    obtain ⟨blank, hblank, hcs⟩ := eq_of_skipBlanks hskip
    split at h
    · next hc =>
      obtain ⟨rest', hkey, heq⟩ := map_eq_ok h
      cases heq
      exact ⟨blank, cs', hblank, hc ▸ hcs, hkey⟩
    · split at h <;> cases h

/-! ## Whatever is skipped is well-formed -/

/-- What it takes to close every bracket of a stack, the innermost first: in each of them more items
and the closing bracket. -/
inductive Closes : List Bracket → List Char → Prop
  | nil : Closes [] []
  | cons {bracket : Bracket} {stack : List Bracket} {items : List (List Char)} {inner cs : List Char}
      (hitems : ∀ item ∈ items, IsItem bracket item) (h : Filled bracket false items inner)
      (hrest : Closes stack cs) : Closes (bracket :: stack) (inner ++ cs)

/-- What a walk takes: a value, if it stands before one, and what closes its stack. -/
def Walked (place : Place) (stack : List Bracket) (cs rest : List Char) : Prop :=
  match place with
  | .value => ∃ blank form tail, Blank blank ∧ WellFormed form ∧ Closes stack tail ∧
      cs = blank ++ form ++ (tail ++ rest)
  | .after => ∃ tail, Closes stack tail ∧ cs = tail ++ rest

/-- Behind the opening bracket and before the value of the first item, a walk takes the rest of the
list or object. -/
theorem Walked.opened {cs' : List Char} (h : Walked .value (bracket :: stack) cs' rest)
    (hkey : skipKey bracket cs = .ok cs') (hblank : Blank blank) :
    ∃ inner tail, WellFormed (bracket.opening :: (blank ++ inner)) ∧ Closes stack tail ∧
      cs = inner ++ (tail ++ rest) := by
  obtain ⟨blank', form, tail, hblank', hform, hcloses, hcs⟩ := h
  obtain ⟨blank₁, item, hblank₁, hitem, rfl⟩ := isItem_of_skipKey hkey hblank' hform hcs
  cases hcloses with
  | @cons _ _ items inner tail hitems hfilled hcloses =>
    refine ⟨blank₁ ++ item ++ inner, tail, ?_, hcloses, by simp only [List.append_assoc]⟩
    refine wellFormed_of_enclosed (List.forall_mem_cons.2 ⟨hitem, hitems⟩) ⟨_, ?_, rfl⟩
    rw [← List.append_assoc, ← List.append_assoc]
    exact .item (blank_append hblank hblank₁) hfilled

/-- Behind a comma and before the value of the next item, a walk takes more items. -/
theorem Walked.next {cs' : List Char} (h : Walked .value (bracket :: stack) cs' rest)
    (hkey : skipKey bracket cs = .ok cs') (hblank : Blank blank) :
    Walked .after (bracket :: stack) (blank ++ ',' :: cs) rest := by
  obtain ⟨blank', form, tail, hblank', hform, hcloses, hcs⟩ := h
  obtain ⟨blank₁, item, hblank₁, hitem, rfl⟩ := isItem_of_skipKey hkey hblank' hform hcs
  cases hcloses with
  | cons hitems hfilled hcloses =>
    exact ⟨_, .cons (List.forall_mem_cons.2 ⟨hitem, hitems⟩)
      (.item ⟨blank, blank₁, hblank, hblank₁, rfl⟩ hfilled) hcloses, by simp⟩

/-- **What a walk steps over is a value and all that closes its stack.** -/
theorem walked_of_walk {place : Place} (h : walk place stack cs = .ok rest) :
    Walked place stack cs rest := by
  fun_induction walk place stack cs with
  | case1 => cases h
  | case2 stack cs rest' hstart ih =>
    obtain ⟨blank, cs', hblank, ⟨form, hform, rfl⟩, rfl⟩ := skipStart_sound hstart
    obtain ⟨tail, hcloses, rfl⟩ := ih h
    exact ⟨blank, form, tail, hblank, hform.wellFormed, hcloses, (List.append_assoc ..).symm⟩
  | case3 => cases h
  | case4 stack cs bracket rest₁ hstart rest₂ hopened ih =>
    -- a list or an object with nothing in it
    obtain ⟨blank, cs', hblank, rfl, rfl⟩ := skipStart_sound hstart
    obtain ⟨blank', hblank', rfl⟩ := skipOpened_true hopened
    obtain ⟨tail, hcloses, rfl⟩ := ih h
    have hnone : ∀ item ∈ ([] : List (List Char)), IsItem bracket item := by simp
    have hform : WellFormed (bracket.opening :: (blank' ++ [bracket.closing])) :=
      wellFormed_of_enclosed hnone ⟨_, .closing hblank', rfl⟩
    exact ⟨blank, _, tail, hblank, hform, hcloses, by simp⟩
  | case5 stack cs bracket rest₁ hstart rest₂ hopened ih =>
    -- the first item: its bracket goes on the stack
    obtain ⟨blank, cs', hblank, rfl, rfl⟩ := skipStart_sound hstart
    obtain ⟨blank', cs', hblank', rfl, hkey⟩ := skipOpened_false hopened
    obtain ⟨inner, tail, hform, hcloses, rfl⟩ := (ih h).opened hkey hblank'
    exact ⟨blank, _, tail, hblank, hform, hcloses, by simp⟩
  | case6 =>
    obtain rfl := Except.ok.inj h
    exact ⟨[], .nil, rfl⟩
  | case7 => cases h
  | case8 cs bracket stack rest' hseparator ih =>
    obtain ⟨blank, hblank, rfl⟩ := skipSeparator_true hseparator
    obtain ⟨tail, hcloses, rfl⟩ := ih h
    exact ⟨_, .cons (by simp) (.closing hblank) hcloses, by simp⟩
  | case9 cs bracket stack rest' hseparator ih =>
    -- the next item, behind a comma
    obtain ⟨blank, cs', hblank, rfl, hkey⟩ := skipSeparator_false hseparator
    exact (ih h).next hkey hblank

/-- **What is stepped over is a well-formed value.** -/
theorem skipValue_sound (h : skipValue cs = .ok rest) :
    ∃ blank form, Blank blank ∧ WellFormed form ∧ cs = blank ++ form ++ rest := by
  obtain ⟨blank, form, tail, hblank, hform, hcloses, hcs⟩ := walked_of_walk h
  cases hcloses with
  | nil => exact ⟨blank, form, hblank, hform, hcs⟩

/-! ## Whatever is well-formed is skipped -/

/-- A character that a value may begin with, as far as lists and objects care. -/
def IsStart (c : Char) : Prop := c ∉ [' ', '\n', '\t', '\r'] ∧ ∀ bracket : Bracket, c ≠ bracket.closing

instance (c : Char) : Decidable (IsStart c) :=
  decidable_of_iff (c ∉ [' ', '\n', '\t', '\r'] ∧ c ≠ ']' ∧ c ≠ '}')
    ⟨fun h => ⟨h.1, fun bracket => by cases bracket; exacts [h.2.1, h.2.2]⟩,
      fun h => ⟨h.1, h.2 .list, h.2 .object⟩⟩

theorem isStart_of_number {c : Char} (hc : c = '-' ∨ c.isDigit = true) : IsStart c := by
  refine ⟨not_blank_of_starts_number hc, fun bracket => ne_of_starts_number hc ?_⟩
  cases bracket <;> decide

theorem IsScalar.starts (h : IsScalar form) : ∃ c cs, form = c :: cs ∧ IsStart c := by
  cases h with
  | word h =>
    simp only [List.mem_cons, List.not_mem_nil, or_false] at h
    rcases h with rfl | rfl | rfl
    · exact ⟨'n', ['u', 'l', 'l'], rfl, by decide⟩
    · exact ⟨'t', ['r', 'u', 'e'], rfl, by decide⟩
    · exact ⟨'f', ['a', 'l', 's', 'e'], rfl, by decide⟩
  | number h =>
    obtain ⟨c, cs, hform, hc⟩ := h.starts
    exact ⟨c, cs, hform, isStart_of_number hc⟩
  | text h =>
    obtain ⟨inner, -, rfl⟩ := h
    exact ⟨'"', _, rfl, by decide⟩

theorem isStart_opening (bracket : Bracket) : IsStart bracket.opening := by
  cases bracket <;> decide

/-- No value begins with a blank or a closing bracket. -/
theorem WellFormed.starts (h : WellFormed form) : ∃ c cs, form = c :: cs ∧ IsStart c := by
  cases h with
  | word h => exact (IsScalar.word h).starts
  | number h => exact (IsScalar.number h).starts
  | text h => exact (IsScalar.text h).starts
  | list hitems h =>
    obtain ⟨inner, -, rfl⟩ := h
    exact ⟨_, inner, rfl, isStart_opening .list⟩
  | object hmembers h =>
    obtain ⟨forms, -, inner, -, rfl⟩ := h
    exact ⟨_, inner, rfl, isStart_opening .object⟩

/-- A walk gets behind an item. -/
structure Skips (bracket : Bracket) (item : List Char) : Prop where
  starts : ∃ c cs, item = c :: cs ∧ IsStart c
  steps (stack : List Bracket) {blank tail : List Char} (hblank : Blank blank) (htail : Ended tail) :
    ∃ rest, skipKey bracket (blank ++ item ++ tail) = .ok rest ∧
      walk .value (bracket :: stack) rest = walk .after (bracket :: stack) tail

/-- No blank could belong to a number. -/
theorem ended_blank_append (hblank : Blank blank) (hrest : Ended rest) : Ended (blank ++ rest) := by
  have hall : ∀ b ∈ [' ', '\n', '\t', '\r'],
      b.isDigit = false ∧ b ≠ '.' ∧ b ≠ 'e' ∧ b ≠ 'E' := by simp
  cases blank with
  | nil => exact hrest
  | cons b blank => exact ended_cons (hall b (hblank b (List.mem_cons_self ..))) _

theorem ended_of_blank (hblank : Blank blank) : Ended blank := by
  have hended := ended_blank_append hblank ended_nil
  rwa [List.append_nil] at hended

/-- What follows an item in brackets is not part of a number. -/
theorem Filled.ended {items : List (List Char)} (h : Filled bracket false items cs)
    (rest : List Char) : Ended (cs ++ rest) := by
  cases h with
  | closing h =>
    rw [List.append_assoc]
    exact ended_blank_append h (ended_cons (by cases bracket <;> decide) _)
  | item h hrest =>
    obtain ⟨blank, blank', h, -, rfl⟩ := h
    rw [List.append_assoc, List.append_assoc, List.append_assoc, List.cons_append]
    exact ended_blank_append h (ended_cons (by decide) _)

theorem walk_of_scalar (hstart : skipStart cs = .ok (none, rest)) :
    walk .value stack cs = walk .after stack rest := by
  rw [walk]
  split
  · next hfault => cases hstart.symm.trans hfault
  · next hok =>
    cases hstart.symm.trans hok
    rfl
  · next hok => cases hstart.symm.trans hok

theorem walk_of_opened {closed : Bool} {cs' : List Char}
    (hstart : skipStart cs = .ok (some bracket, cs'))
    (hopened : skipOpened bracket cs' = .ok (closed, rest)) :
    walk .value stack cs
      = if closed then walk .after stack rest else walk .value (bracket :: stack) rest := by
  rw [walk]
  split
  · next hfault => cases hstart.symm.trans hfault
  · next hok => cases hstart.symm.trans hok
  · next hok =>
    cases hstart.symm.trans hok
    split
    · next hfault => cases hopened.symm.trans hfault
    · next hok' =>
      cases hopened.symm.trans hok'
      rfl
    · next hok' =>
      cases hopened.symm.trans hok'
      rfl

theorem walk_of_separator {closed : Bool}
    (hseparator : skipSeparator bracket cs = .ok (closed, rest)) :
    walk .after (bracket :: stack) cs
      = if closed then walk .after stack rest else walk .value (bracket :: stack) rest := by
  conv_lhs => rw [walk]
  split
  · next hfault => cases hseparator.symm.trans hfault
  · next hok =>
    cases hseparator.symm.trans hok
    rfl
  · next hok =>
    cases hseparator.symm.trans hok
    rfl

theorem closing_ne_comma (bracket : Bracket) : bracket.closing ≠ ',' := by
  cases bracket <;> decide

/-- A walk gets behind the items that follow one, and the closing bracket. -/
theorem walk_filled {items : List (List Char)} {inner : List Char}
    (hitems : ∀ item ∈ items, Skips bracket item) (h : Filled bracket false items inner)
    (rest : List Char) : walk .after (bracket :: stack) (inner ++ rest) = walk .after stack rest := by
  induction items generalizing inner with
  | nil =>
    cases h with
    | @closing _ blank hblank =>
      have hseparator : skipSeparator bracket (blank ++ [bracket.closing] ++ rest)
          = .ok (true, rest) := by
        rw [List.append_assoc, skipSeparator, List.singleton_append,
          skipBlanks_blank_cons hblank (closing_not_blank bracket)]
        dsimp only
        rw [if_neg (closing_ne_comma bracket), if_pos rfl]
      rw [walk_of_separator hseparator, if_pos rfl]
  | cons item items ih =>
    obtain ⟨hitem, hitems⟩ := List.forall_mem_cons.1 hitems
    cases h with
    | @item _ _ _ inner _ hbetween hrest =>
      obtain ⟨blank, blank', hblank, hblank', rfl⟩ := hbetween
      obtain ⟨cs, hkey, hwalk⟩ := hitem.steps stack hblank' (hrest.ended rest)
      have hseparator : skipSeparator bracket (blank ++ ',' :: blank' ++ item ++ inner ++ rest)
          = .ok (false, cs) := by
        have hcs : blank ++ ',' :: blank' ++ item ++ inner ++ rest
            = blank ++ ',' :: (blank' ++ item ++ (inner ++ rest)) := by simp
        rw [hcs, skipSeparator, skipBlanks_blank_cons hblank (by decide)]
        exact map_ok hkey
      rw [walk_of_separator hseparator, if_neg Bool.false_ne_true, hwalk, ih hitems hrest]

/-- A walk gets behind a list or an object. -/
theorem walk_enclosed {items : List (List Char)} (hitems : ∀ item ∈ items, Skips bracket item)
    (h : Enclosed bracket items form) (hblank : Blank blank) (rest : List Char) :
    walk .value stack (blank ++ form ++ rest) = walk .after stack rest := by
  obtain ⟨inner, hinner, rfl⟩ := h
  have hstart : skipStart (blank ++ bracket.opening :: inner ++ rest)
      = .ok (some bracket, inner ++ rest) := by
    rw [List.append_assoc, List.cons_append, skipStart_opening hblank]
  cases hinner with
  | @closing _ blank' hblank' =>
    have hopened : skipOpened bracket (blank' ++ [bracket.closing] ++ rest) = .ok (true, rest) := by
      rw [List.append_assoc, skipOpened, List.singleton_append,
        skipBlanks_blank_cons hblank' (closing_not_blank bracket)]
      exact if_pos rfl
    rw [walk_of_opened hstart hopened, if_pos rfl]
  | @item _ blank' item inner items hblank' hrest =>
    obtain ⟨hitem, hitems⟩ := List.forall_mem_cons.1 hitems
    obtain ⟨cs, hkey, hwalk⟩ := hitem.steps stack blank_nil (hrest.ended rest)
    -- the first item does not begin with the closing bracket, so it is not taken for an empty list
    obtain ⟨c, cs', hc, hstarts⟩ := hitem.starts
    have hopened : skipOpened bracket (blank' ++ item ++ inner ++ rest) = .ok (false, cs) := by
      rw [hc] at hkey ⊢
      rw [List.append_assoc, List.append_assoc, List.cons_append, skipOpened,
        skipBlanks_blank_cons hblank' hstarts.1]
      dsimp only
      rw [if_neg (hstarts.2 bracket)]
      rw [List.nil_append, List.cons_append] at hkey
      exact map_ok hkey
    rw [walk_of_opened hstart hopened, if_neg Bool.false_ne_true, hwalk,
      walk_filled hitems hrest]

/-- Whatever is on the right has its counterpart on the left. -/
theorem exists_of_forall₂ {α β : Type} {R : α → β → Prop} {as : List α} {bs : List β}
    (h : List.Forall₂ R as bs) : ∀ b ∈ bs, ∃ a ∈ as, R a b := by
  induction h with
  | nil => simp
  | cons hab _ ih =>
    refine List.forall_mem_cons.2 ⟨⟨_, List.mem_cons_self .., hab⟩, fun b hb => ?_⟩
    obtain ⟨a, ha, hab⟩ := ih b hb
    exact ⟨a, List.mem_cons_of_mem _ ha, hab⟩

/-- A key and its colon are skipped. -/
theorem skipKey_object {key value : List Char} (hkey : Quoted IsText key)
    (h : IsMember key value form) (hblank : Blank blank) :
    ∃ blank', Blank blank' ∧
      skipKey .object (blank ++ form ++ rest) = .ok (blank' ++ value ++ rest) := by
  obtain ⟨inner, hinner, rfl⟩ := hkey
  obtain ⟨before, after, hbefore, hafter, rfl⟩ := h
  refine ⟨after, hafter, ?_⟩
  have htext : skipText (inner ++ ['"'] ++ (before ++ ':' :: (after ++ value)) ++ rest)
      = .ok (before ++ ':' :: (after ++ value ++ rest)) := skipText_iff.2 ⟨inner, hinner, by simp⟩
  rw [List.append_assoc _ before, List.append_assoc blank, List.cons_append, List.cons_append,
    List.cons_append, skipKey, skipBlanks_blank_cons hblank (by decide)]
  dsimp only
  rw [if_pos rfl, htext]
  exact expectColon_iff.2 ⟨before, hbefore, rfl⟩

/-- A walk gets behind every well-formed value. -/
theorem walk_of_wellFormed (h : WellFormed form) (hblank : Blank blank) (hrest : Ended rest) :
    walk .value stack (blank ++ form ++ rest) = walk .after stack rest := by
  induction h generalizing stack blank rest with
  | word h => exact walk_of_scalar (skipStart_scalar hblank (.word h) hrest)
  | number h => exact walk_of_scalar (skipStart_scalar hblank (.number h) hrest)
  | text h => exact walk_of_scalar (skipStart_scalar hblank (.text h) hrest)
  | @list items cs hitems h ih =>
    -- the bracket goes on the stack, and all items are stepped over before it comes off again
    refine walk_enclosed (fun item hitem => ⟨(hitems item hitem).starts, ?_⟩) h hblank rest
    exact fun stack blank tail hblank htail => ⟨_, rfl, ih item hitem hblank htail⟩
  | @object members cs hmembers h ih =>
    obtain ⟨items, hforms, h⟩ := h
    refine walk_enclosed (fun item hitem => ?_) h hblank rest
    -- a member is stepped over as its key, which is not a value, and then its value
    obtain ⟨m, hm, key, ⟨-, hkey⟩, hmember⟩ := exists_of_forall₂ hforms item hitem
    refine ⟨?_, fun stack blank tail hblank htail => ?_⟩
    · obtain ⟨inner, -, rfl⟩ := hkey
      obtain ⟨before, after, -, -, rfl⟩ := hmember
      exact ⟨'"', _, rfl, by decide⟩
    · obtain ⟨blank', hblank', hskip⟩ := skipKey_object hkey hmember hblank
      exact ⟨_, hskip, ih m hm hblank' htail⟩

/-- **Every well-formed value is stepped over.** -/
theorem skipValue_complete (h : WellFormed form) (hblank : Blank blank) (hrest : Ended rest) :
    skipValue (blank ++ form ++ rest) = .ok rest := by
  rw [skipValue, walk_of_wellFormed h hblank hrest, walk]

end Switchboard.Json
