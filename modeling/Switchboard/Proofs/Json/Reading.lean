import Switchboard.Proofs.Json.Skipping

/-!
# Readers and what they recognize

A reader recognizes values of some form if it takes just these off the front of a text
(`Reader.Recognizes`). The readers of texts, flags and integers do, a list does if the reader of its
items does, and a record does if the readers of its fields do. A whole text is then read just when it
is such a form with nothing but blanks around it (`parse_iff`).
-/

namespace Switchboard.Json

variable {α β : Type} {cs rest blank form : List Char}

/-- What a reader takes is a value of the form that it recognizes, and every such value is taken. -/
structure Reader.Recognizes (reader : Reader α) (Form : α → List Char → Prop) : Prop where
  sound {cs rest : List Char} {a : α} (h : reader.run cs = .ok (a, rest)) :
    ∃ blank form, Blank blank ∧ Form a form ∧ cs = blank ++ form ++ rest
  complete {blank form rest : List Char} {a : α} (hblank : Blank blank) (h : Form a form)
    (hrest : Ended rest) : reader.run (blank ++ form ++ rest) = .ok (a, rest)
  starts {form : List Char} {a : α} (h : Form a form) : ∃ c cs, form = c :: cs ∧ IsStart c

variable {Form : α → List Char → Prop} {reader : Reader α}

theorem Reader.Recognizes.congr {Form' : α → List Char → Prop} (h : reader.Recognizes Form)
    (hiff : ∀ a form, Form a form ↔ Form' a form) : reader.Recognizes Form' where
  sound hrun := by
    obtain ⟨blank, form, hblank, hform, hcs⟩ := h.sound hrun
    exact ⟨blank, form, hblank, (hiff _ _).1 hform, hcs⟩
  complete hblank hform hrest := h.complete hblank ((hiff _ _).2 hform) hrest
  starts hform := h.starts ((hiff _ _).2 hform)

theorem run_map_of_ok {cs rest : List Char} {a : α} (h : reader.run cs = .ok (a, rest)) (f : α → β) :
    (reader.map f).run cs = .ok (f a, rest) := by
  rw [Reader.map]
  dsimp only
  rw [h]

theorem run_map_of_error {cs : List Char} {fault : Fault} (h : reader.run cs = .error fault)
    (f : α → β) : (reader.map f).run cs = .error fault := by
  rw [Reader.map]
  dsimp only
  rw [h]

/-- What is done with a value after it was read does not change what it is read from. -/
theorem Reader.Recognizes.map (h : reader.Recognizes Form) (f : α → β) :
    (reader.map f).Recognizes fun b form => ∃ a, b = f a ∧ Form a form where
  sound {cs rest b} hrun := by
    cases hread : reader.run cs with
    | error fault => cases (run_map_of_error hread f).symm.trans hrun
    | ok read =>
      obtain ⟨a, rest'⟩ := read
      obtain ⟨rfl, rfl⟩ := Prod.mk.inj (Except.ok.inj ((run_map_of_ok hread f).symm.trans hrun))
      obtain ⟨blank, form, hblank, hform, hcs⟩ := h.sound hread
      exact ⟨blank, form, hblank, ⟨a, rfl, hform⟩, hcs⟩
  complete {blank form rest b} hblank hform hrest := by
    obtain ⟨a, rfl, hform⟩ := hform
    exact run_map_of_ok (h.complete hblank hform hrest) f
  starts hform := by
    obtain ⟨a, -, hform⟩ := hform
    exact h.starts hform

/-! ## Single values -/

/-- A text is read however its characters are spelled. -/
theorem recognizes_text : text.Recognizes TextSpelled where
  sound {cs rest s} h := by
    change runText cs = .ok (s, rest) at h
    unfold runText at h
    split at h
    · cases h
    · next c cs' hskip =>
      obtain ⟨blank, hblank, rfl⟩ := eq_of_skipBlanks hskip
      split at h
      · next hc =>
        split at h
        · next read rest' htext =>
          obtain ⟨rfl, rfl⟩ := Prod.mk.inj (Except.ok.inj h)
          obtain ⟨inner, read, hinner, rfl, rfl⟩ := takeText_iff.1 htext
          refine ⟨blank, _, hblank, ⟨inner, ?_, rfl⟩, by simp [hc]⟩
          show Spells inner (String.ofList read).toList
          rw [String.toList_ofList]
          exact hinner
        · cases h
      · cases h
  complete {blank form rest s} hblank h _ := by
    obtain ⟨inner, hinner, rfl⟩ := h
    have htext : takeText [] (inner ++ ['"'] ++ rest) = .ok (s.toList, rest) :=
      takeText_iff.2 ⟨inner, s.toList, hinner, rfl, by simp⟩
    show runText _ = _
    rw [List.append_assoc, List.cons_append, List.cons_append, runText,
      skipBlanks_blank_cons hblank (by decide)]
    dsimp only
    rw [if_pos rfl, htext]
    dsimp only
    rw [String.ofList_toList]
  starts h := by
    obtain ⟨inner, -, rfl⟩ := h
    exact ⟨'"', _, rfl, by decide⟩

/-- A flag is read from its word. -/
theorem recognizes_flag : flag.Recognizes fun b form => form = (toString b).toList where
  sound {cs rest b} h := by
    change runFlag cs = .ok (b, rest) at h
    unfold runFlag at h
    split at h
    · cases h
    · next c cs' hskip =>
      obtain ⟨blank, hblank, rfl⟩ := eq_of_skipBlanks hskip
      refine ⟨blank, _, hblank, rfl, ?_⟩
      split at h
      · next hc =>
        obtain ⟨rest', htaken, heq⟩ := map_eq_ok h
        cases heq
        rw [hc, expectWord_iff.1 htaken, List.append_assoc]
        rfl
      · split at h
        · next hc =>
          obtain ⟨rest', htaken, heq⟩ := map_eq_ok h
          cases heq
          rw [hc, expectWord_iff.1 htaken, List.append_assoc]
          rfl
        · cases h
  complete {blank form rest b} hblank h _ := by
    obtain rfl := h
    show runFlag _ = _
    rw [List.append_assoc]
    cases b with
    | true =>
      show runFlag (blank ++ 't' :: (['r', 'u', 'e'] ++ rest)) = _
      rw [runFlag, skipBlanks_blank_cons hblank (by decide)]
      exact map_expectWord_append _ ['r', 'u', 'e'] rest
    | false =>
      show runFlag (blank ++ 'f' :: (['a', 'l', 's', 'e'] ++ rest)) = _
      rw [runFlag, skipBlanks_blank_cons hblank (by decide)]
      exact map_expectWord_append _ ['a', 'l', 's', 'e'] rest
  starts {form b} h := by
    obtain rfl := h
    cases b with
    | true => exact ⟨'t', ['r', 'u', 'e'], rfl, by decide⟩
    | false => exact ⟨'f', ['a', 'l', 's', 'e'], rfl, by decide⟩

/-- Within sixty-four bits, an integer of a range is taken as it is written or not at all. -/
theorem recognizes_integer {low high : Int} (hlow : -(2 ^ 63) ≤ low) (hhigh : high < 2 ^ 64)
    (expected : String) :
    (integer low high expected).Recognizes fun n form =>
      (low ≤ n ∧ n ≤ high) ∧ form = (toString n).toList where
  sound {cs rest n} h := by
    change runInteger low high expected cs = .ok (n, rest) at h
    unfold runInteger at h
    split at h
    · cases h
    · next c cs' hskip =>
      obtain ⟨blank, hblank, rfl⟩ := eq_of_skipBlanks hskip
      split at h
      · split at h
        · cases h
        · cases h
        · next n' rest' hnumber =>
          split at h
          · next hrange =>
            -- it was read as a number of any size, and then looked at
            obtain ⟨rfl, rfl⟩ := Prod.mk.inj (Except.ok.inj h)
            refine ⟨blank, _, hblank, ⟨hrange, rfl⟩, ?_⟩
            rw [takeNumber_sound hnumber, List.append_assoc]
          · cases h
      · cases h
  complete {blank form rest n} hblank h hrest := by
    obtain ⟨hrange, rfl⟩ := h
    -- within the range it is within sixty-four bits, so it is not taken for a float
    have hnumber := takeNumber_complete (n := n) ⟨by omega, by omega⟩ hrest
    obtain ⟨c, cs, hform, hc⟩ := (isNumber_toString n).starts
    show runInteger _ _ _ _ = _
    rw [hform, List.cons_append] at hnumber
    rw [hform, List.append_assoc, List.cons_append, runInteger,
      skipBlanks_blank_cons hblank (not_blank_of_starts_number hc)]
    dsimp only
    rw [if_pos hc, hnumber]
    exact if_pos hrange
  starts {form n} h := by
    obtain ⟨-, rfl⟩ := h
    obtain ⟨c, cs, hform, hc⟩ := (isNumber_toString n).starts
    exact ⟨c, cs, hform, isStart_of_number hc⟩

/-! ## Lists -/

theorem listGoesOn_false {isFirst : Bool} (h : listGoesOn isFirst cs = .ok (false, rest)) :
    ∃ blank, Blank blank ∧ cs = blank ++ Bracket.list.closing :: rest := by
  unfold listGoesOn at h
  split at h
  · cases h
  · next c cs' hskip =>
    split at h
    · next hc =>
      cases h
      rw [hc] at hskip
      exact eq_of_skipBlanks hskip
    · split at h
      · cases h
      · split at h
        · split at h
          · cases h
          · split at h <;> cases h
        · cases h

/-- A list that goes on does so with a comma, unless it is the first item; the item begins behind
the blanks. -/
theorem listGoesOn_true {isFirst : Bool} (h : listGoesOn isFirst cs = .ok (true, rest)) :
    ∃ between, Between isFirst between ∧ cs = between ++ rest := by
  unfold listGoesOn at h
  split at h
  · cases h
  · next c cs' hskip =>
    obtain ⟨blank, hblank, rfl⟩ := eq_of_skipBlanks hskip
    split at h
    · cases h
    · split at h
      · next hfirst =>
        cases h
        subst hfirst
        exact ⟨blank, hblank, rfl⟩
      · next hfirst =>
        rw [Bool.not_eq_true] at hfirst
        subst hfirst
        split at h
        · next hc =>
          -- behind a comma there must be an item: a bracket there is a fault
          split at h
          · cases h
          · next d cs'' hskip' =>
            obtain ⟨blank', hblank', rfl⟩ := eq_of_skipBlanks hskip'
            split at h
            · cases h
            · cases h
              exact ⟨_, ⟨blank, blank', hblank, hblank', rfl⟩, by simp [hc]⟩
        · cases h

theorem listGoesOn_closing (hblank : Blank blank) (isFirst : Bool) (rest : List Char) :
    listGoesOn isFirst (blank ++ [Bracket.list.closing] ++ rest) = .ok (false, rest) := by
  rw [List.append_assoc, List.singleton_append, listGoesOn,
    skipBlanks_blank_cons hblank (closing_not_blank .list)]
  rfl

theorem listGoesOn_item {isFirst : Bool} {between : List Char} (hbetween : Between isFirst between)
    {c : Char} (hc : IsStart c) (cs : List Char) :
    listGoesOn isFirst (between ++ c :: cs) = .ok (true, c :: cs) := by
  have hclosing : c ≠ ']' := hc.2 .list
  cases isFirst with
  | true =>
    rw [listGoesOn, skipBlanks_blank_cons hbetween hc.1]
    dsimp only
    rw [if_neg hclosing, if_pos rfl]
  | false =>
    obtain ⟨blank, blank', hblank, hblank', rfl⟩ := hbetween
    rw [List.append_assoc, List.cons_append, listGoesOn, skipBlanks_blank_cons hblank (by decide)]
    dsimp only
    rw [if_neg (by decide), if_neg Bool.false_ne_true, if_pos rfl,
      skipBlanks_blank_cons hblank' hc.1]
    exact if_neg hclosing

/-- Blanks in front of an item are as good as blanks behind the comma. -/
theorem between_append {isFirst : Bool} {between : List Char} (h : Between isFirst between)
    (hblank : Blank blank) : Between isFirst (between ++ blank) := by
  cases isFirst with
  | true => exact blank_append h hblank
  | false =>
    obtain ⟨blank₁, blank₂, hblank₁, hblank₂, rfl⟩ := h
    exact ⟨blank₁, blank₂ ++ blank, hblank₁, blank_append hblank₂ hblank, by simp⟩

/-- Items that are read stand in the list, one after another. -/
theorem runElements_sound (hitem : reader.Recognizes Form) {isFirst : Bool} {done as : List α}
    (h : runElements reader isFirst done cs = .ok (as, rest)) :
    ∃ items forms inner, as = done.reverse ++ items ∧ List.Forall₂ Form items forms ∧
      Filled .list isFirst forms inner ∧ cs = inner ++ rest := by
  fun_induction runElements reader isFirst done cs with
  | case1 => cases h
  | case2 isFirst done cs rest' hgoes =>
    obtain ⟨rfl, rfl⟩ := Prod.mk.inj (Except.ok.inj h)
    obtain ⟨blank, hblank, rfl⟩ := listGoesOn_false hgoes
    exact ⟨[], [], _, (List.append_nil _).symm, .nil, .closing hblank, by simp⟩
  | case3 => cases h
  | case4 isFirst done cs rest₁ hgoes a rest₂ hrun ih =>
    obtain ⟨between, hbetween, rfl⟩ := listGoesOn_true hgoes
    obtain ⟨blank, form, hblank, hform, rfl⟩ := hitem.sound hrun
    obtain ⟨items, forms, inner, rfl, hforms, hfilled, rfl⟩ := ih h
    exact ⟨a :: items, form :: forms, _, by simp, .cons hform hforms,
      .item (between_append hbetween hblank) hfilled, by simp⟩

theorem runElements_of_closing {isFirst : Bool} {done : List α}
    (h : listGoesOn isFirst cs = .ok (false, rest)) :
    runElements reader isFirst done cs = .ok (done.reverse, rest) := by
  rw [runElements]
  split
  · next hfault => cases h.symm.trans hfault
  · next hok =>
    cases h.symm.trans hok
    rfl
  · next hok => cases h.symm.trans hok

theorem runElements_of_item {isFirst : Bool} {done : List α} {a : α} {cs' : List Char}
    (h : listGoesOn isFirst cs = .ok (true, cs')) (hrun : reader.run cs' = .ok (a, rest)) :
    runElements reader isFirst done cs = runElements reader false (a :: done) rest := by
  rw [runElements]
  split
  · next hfault => cases h.symm.trans hfault
  · next hok => cases h.symm.trans hok
  · next hok =>
    cases h.symm.trans hok
    split
    · next hfault => cases hrun.symm.trans hfault
    · next hok' =>
      cases hrun.symm.trans hok'
      rfl

/-- Every list of items is read to its bracket. -/
theorem runElements_complete (hitem : reader.Recognizes Form) {isFirst : Bool} {done items : List α}
    {forms : List (List Char)} {inner : List Char} (hforms : List.Forall₂ Form items forms)
    (h : Filled .list isFirst forms inner) (rest : List Char) :
    runElements reader isFirst done (inner ++ rest) = .ok (done.reverse ++ items, rest) := by
  induction hforms generalizing isFirst done inner with
  | nil =>
    cases h with
    | closing hblank =>
      rw [runElements_of_closing (listGoesOn_closing hblank isFirst rest), List.append_nil]
  | @cons a form items forms hform _ ih =>
    cases h with
    | @item _ between _ inner _ hbetween hfilled =>
      -- an item begins with no blank and no bracket, so the list is not over before it
      obtain ⟨c, cs, hc, hstart⟩ := hitem.starts hform
      have hgoes : listGoesOn isFirst (between ++ form ++ inner ++ rest)
          = .ok (true, [] ++ form ++ (inner ++ rest)) := by
        rw [hc, List.append_assoc, List.append_assoc]
        exact listGoesOn_item hbetween hstart _
      rw [runElements_of_item hgoes (hitem.complete blank_nil hform (hfilled.ended rest)),
        ih hfilled]
      simp

/-- **A list is read if its items are.** -/
theorem recognizes_list (hitem : reader.Recognizes Form) : (list reader).Recognizes (ListOf Form) where
  sound {cs rest as} h := by
    change runList reader cs = .ok (as, rest) at h
    unfold runList at h
    split at h
    · cases h
    · next c cs' hskip =>
      obtain ⟨blank, hblank, rfl⟩ := eq_of_skipBlanks hskip
      split at h
      · next hc =>
        obtain ⟨items, forms, inner, rfl, hforms, hfilled, rfl⟩ := runElements_sound hitem h
        exact ⟨blank, _, hblank, ⟨forms, hforms, inner, hfilled, rfl⟩, by simp [hc]; rfl⟩
      · cases h
  complete {blank form rest as} hblank h _ := by
    obtain ⟨forms, hforms, inner, hfilled, rfl⟩ := h
    show runList reader _ = _
    rw [List.append_assoc, List.cons_append, runList,
      skipBlanks_blank_cons hblank (opening_not_blank .list)]
    exact runElements_complete hitem hforms hfilled rest
  starts h := by
    obtain ⟨forms, -, inner, -, rfl⟩ := h
    exact ⟨_, inner, rfl, isStart_opening .list⟩

end Switchboard.Json
