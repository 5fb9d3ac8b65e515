import Switchboard.Json.Reader
import Switchboard.Proofs.Json.Tokens
import Mathlib.Data.List.Induction

/-!
# Numbers

A number is read as far as it goes (`takeLiteral_sound`, `takeLiteral_complete`). Its value is an
integer just when the number is the one decimal spelling of an integer within sixty-four bits
(`takeNumber_sound`, `takeNumber_complete`): zero with a sign, a fraction and an exponent make it
something else, and so do digits that do not fit. No integer is ever rounded or cut.
-/

namespace Switchboard.Json

variable {cs rest : List Char} {c : Char} {atEnd : Fault}

/-- Nothing that could belong to a number stands at the front. -/
def Ended (rest : List Char) : Prop :=
  ∀ c ∈ rest.head?, c.isDigit = false ∧ c ≠ '.' ∧ c ≠ 'e' ∧ c ≠ 'E'

/-- No digit stands at the front. -/
def NoDigit (rest : List Char) : Prop := ∀ c ∈ rest.head?, c.isDigit = false

theorem Ended.noDigit (h : Ended rest) : NoDigit rest := fun c hc => (h c hc).1

theorem ended_nil : Ended [] := fun _ h => (by cases h)

theorem ended_cons (h : c.isDigit = false ∧ c ≠ '.' ∧ c ≠ 'e' ∧ c ≠ 'E') (rest : List Char) :
    Ended (c :: rest) := by
  intro d hd
  obtain rfl := Option.some.inj hd
  exact h

/-! ## Digits -/

theorem noDigit_dropWhile (cs : List Char) : NoDigit (cs.dropWhile Char.isDigit) := by
  intro c hc
  have hnot := List.head?_dropWhile_not Char.isDigit cs
  rw [Option.mem_def.1 hc] at hnot
  exact hnot

/-- Digits are taken as far as they go. -/
theorem takeDigits_sound {digits : List Char} (h : takeDigits atEnd cs = .ok (digits, rest)) :
    IsDigits digits ∧ NoDigit rest ∧ cs = digits ++ rest := by
  cases cs with
  | nil => cases h
  | cons c cs =>
    rw [takeDigits] at h
    split at h
    · next hc =>
      obtain ⟨rfl, rfl⟩ := Prod.mk.inj (Except.ok.inj h)
      refine ⟨⟨List.cons_ne_nil _ _, ?_⟩, noDigit_dropWhile cs, ?_⟩
      · exact List.forall_mem_cons.2 ⟨hc, List.all_eq_true.1 List.all_takeWhile⟩
      · rw [List.cons_append, List.takeWhile_append_dropWhile]
    · cases h

theorem takeWhile_of_noDigit (h : NoDigit rest) : rest.takeWhile Char.isDigit = [] := by
  cases rest with
  | nil => rfl
  | cons c rest => exact List.takeWhile_cons_of_neg (by rw [h c rfl]; exact Bool.false_ne_true)

theorem dropWhile_of_noDigit (h : NoDigit rest) : rest.dropWhile Char.isDigit = rest := by
  cases rest with
  | nil => rfl
  | cons c rest => exact List.dropWhile_cons_of_neg (by rw [h c rfl]; exact Bool.false_ne_true)

theorem takeDigits_complete {digits : List Char} (h : IsDigits digits) (hrest : NoDigit rest) :
    takeDigits atEnd (digits ++ rest) = .ok (digits, rest) := by
  cases digits with
  | nil => exact absurd rfl h.1
  | cons c cs =>
    obtain ⟨hc, hcs⟩ := List.forall_mem_cons.1 h.2
    rw [List.cons_append, takeDigits, if_pos hc, List.takeWhile_append_of_pos hcs,
      List.dropWhile_append_of_pos hcs, takeWhile_of_noDigit hrest, dropWhile_of_noDigit hrest,
      List.append_nil]

/-- The whole part has no zero in front, unless it is one. -/
theorem takeWhole_sound {digits : List Char} (h : takeWhole atEnd cs = .ok (digits, rest)) :
    IsDigits digits ∧ (digits.head? = some '0' → digits = ['0']) ∧ NoDigit rest ∧
      cs = digits ++ rest := by
  unfold takeWhole at h
  split at h
  · next c cs =>
    split at h
    · cases h
    · next hc =>
      obtain ⟨rfl, rfl⟩ := Prod.mk.inj (Except.ok.inj h)
      refine ⟨⟨List.cons_ne_nil _ _, by simp⟩, fun _ => rfl, ?_, rfl⟩
      intro d hd
      obtain rfl := Option.some.inj hd
      exact Bool.eq_false_iff.2 hc
  · next hnot =>
    obtain ⟨hdigits, hrest, rfl⟩ := takeDigits_sound h
    refine ⟨hdigits, fun hzero => ?_, hrest, rfl⟩
    -- a zero that does not stand alone is the case before
    cases digits with
    | nil => cases hzero
    | cons c digits =>
      obtain rfl := Option.some.inj hzero
      cases digits with
      | nil => rfl
      | cons d digits => exact absurd rfl (hnot d (digits ++ rest))

theorem takeWhole_complete {digits : List Char} (h : IsDigits digits)
    (hzero : digits.head? = some '0' → digits = ['0']) (hrest : NoDigit rest) :
    takeWhole atEnd (digits ++ rest) = .ok (digits, rest) := by
  unfold takeWhole
  split
  · next c cs heq =>
    cases digits with
    | nil => exact absurd rfl h.1
    | cons d digits =>
      obtain ⟨rfl, htail⟩ := List.cons.inj heq
      -- a zero stands alone, and the fault is for one with a digit behind it
      obtain rfl : digits = [] := (List.cons.inj (hzero rfl)).2
      obtain rfl : rest = c :: cs := htail
      rw [hrest c rfl, if_neg Bool.false_ne_true]
  · exact takeDigits_complete h hrest

/-! ## Literals -/

theorem takeFraction_sound {fraction : Option (List Char)}
    (h : takeFraction atEnd cs = .ok (fraction, rest)) :
    ∃ form, IsFraction fraction form ∧ cs = form ++ rest := by
  unfold takeFraction at h
  split at h
  · split at h
    · next digits rest' hdigits =>
      obtain ⟨rfl, rfl⟩ := Prod.mk.inj (Except.ok.inj h)
      obtain ⟨hform, -, rfl⟩ := takeDigits_sound hdigits
      exact ⟨_, ⟨hform, rfl⟩, rfl⟩
    · cases h
  · obtain ⟨rfl, rfl⟩ := Prod.mk.inj (Except.ok.inj h)
    exact ⟨[], rfl, rfl⟩

/-- A fraction is taken as a whole. Where there is none, no point may follow. -/
theorem takeFraction_complete {fraction : Option (List Char)} {form : List Char}
    (h : IsFraction fraction form) (hrest : NoDigit rest) (hpoint : ∀ c ∈ rest.head?, c ≠ '.') :
    takeFraction atEnd (form ++ rest) = .ok (fraction, rest) := by
  cases fraction with
  | none =>
    obtain rfl : form = [] := h
    unfold takeFraction
    split
    · next cs heq =>
      rw [List.nil_append] at heq
      exact absurd rfl (hpoint '.' (by rw [heq]; rfl))
    · rfl
  | some digits =>
    obtain ⟨hdigits, rfl⟩ := h
    rw [List.cons_append, takeFraction, takeDigits_complete hdigits hrest]

/-- The sign of an exponent, which may be left out. -/
theorem takeSign_split (cs : List Char) :
    ∃ sign ∈ if (takeSign cs).1 then [['-']] else [[], ['+']], cs = sign ++ (takeSign cs).2 := by
  unfold takeSign
  split
  · exact ⟨['+'], by simp, rfl⟩
  · exact ⟨['-'], by simp, rfl⟩
  · exact ⟨[], by simp, rfl⟩

theorem takeSign_append {negative : Bool} {sign digits : List Char}
    (hsign : sign ∈ if negative then [['-']] else [[], ['+']]) (h : IsDigits digits)
    (rest : List Char) : takeSign (sign ++ digits ++ rest) = (negative, digits ++ rest) := by
  cases negative with
  | true =>
    obtain rfl := List.mem_singleton.1 hsign
    rfl
  | false =>
    rcases List.mem_cons.1 hsign with rfl | hplus
    · cases digits with
      | nil => exact absurd rfl h.1
      | cons c digits =>
        have hc := h.2 c (List.mem_cons_self ..)
        rw [List.nil_append, List.cons_append, takeSign]
        · rintro cs heq
          obtain rfl := (List.cons.inj heq).1
          exact absurd hc (by decide)
        · rintro cs heq
          obtain rfl := (List.cons.inj heq).1
          exact absurd hc (by decide)
    · obtain rfl := List.mem_singleton.1 hplus
      rfl

theorem takeExponent_sound {exponent : Option (Bool × List Char)}
    (h : takeExponent atEnd cs = .ok (exponent, rest)) :
    ∃ form, IsExponent exponent form ∧ cs = form ++ rest := by
  unfold takeExponent at h
  split at h
  · obtain ⟨rfl, rfl⟩ := Prod.mk.inj (Except.ok.inj h)
    exact ⟨[], rfl, rfl⟩
  · next e cs =>
    split at h
    · next he =>
      split at h
      · next digits rest' hdigits =>
        obtain ⟨rfl, rfl⟩ := Prod.mk.inj (Except.ok.inj h)
        -- the sign may be missing, so what is left behind it is named first
        obtain ⟨sign, hsign, hcs⟩ := takeSign_split cs
        obtain ⟨hform, -, htaken⟩ := takeDigits_sound hdigits
        refine ⟨e :: sign ++ digits, ⟨hform, e, by simpa using he, sign, hsign, rfl⟩, ?_⟩
        rw [htaken] at hcs
        rw [List.cons_append, List.cons_append, List.append_assoc, ← hcs]
      · cases h
    · obtain ⟨rfl, rfl⟩ := Prod.mk.inj (Except.ok.inj h)
      exact ⟨[], rfl, rfl⟩

/-- An exponent is taken as a whole. Where there is none, no letter of one may follow. -/
theorem takeExponent_complete {exponent : Option (Bool × List Char)} {form : List Char}
    (h : IsExponent exponent form) (hrest : Ended rest) :
    takeExponent atEnd (form ++ rest) = .ok (exponent, rest) := by
  cases exponent with
  | none =>
    obtain rfl : form = [] := h
    cases rest with
    | nil => rfl
    | cons c rest =>
      have hc := hrest c rfl
      rw [List.nil_append, takeExponent, if_neg]
      exact not_or.2 ⟨hc.2.2.1, hc.2.2.2⟩
  | some exponent =>
    obtain ⟨negative, digits⟩ := exponent
    obtain ⟨hdigits, e, he, sign, hsign, rfl⟩ := h
    rw [List.cons_append, List.cons_append, takeExponent, if_pos (by simpa using he),
      takeSign_append hsign hdigits, takeDigits_complete hdigits hrest.noDigit]

/-- An exponent does not go on with what stands before it. -/
theorem IsExponent.noDigit {exponent : Option (Bool × List Char)} {form : List Char}
    (h : IsExponent exponent form) (hrest : Ended rest) :
    ∀ c ∈ (form ++ rest).head?, c.isDigit = false ∧ c ≠ '.' := by
  cases exponent with
  | none =>
    obtain rfl : form = [] := h
    exact fun c hc => ⟨(hrest c hc).1, (hrest c hc).2.1⟩
  | some exponent =>
    obtain ⟨-, e, he, sign, -, rfl⟩ := h
    intro c hc
    obtain rfl := Option.some.inj hc
    rcases List.mem_cons.1 he with rfl | he
    · decide
    · obtain rfl := List.mem_singleton.1 he
      decide

theorem IsFraction.noDigit {fraction : Option (List Char)} {form : List Char}
    (h : IsFraction fraction form) (hrest : NoDigit rest) : NoDigit (form ++ rest) := by
  cases fraction with
  | none =>
    obtain rfl : form = [] := h
    exact hrest
  | some digits =>
    obtain ⟨-, rfl⟩ := h
    intro c hc
    obtain rfl := Option.some.inj hc
    decide

/-- The sign of a number. -/
def signChars (negative : Bool) : List Char := if negative then ['-'] else []

/-- Without its sign, a number is a whole part, a fraction and an exponent. -/
theorem takeUnsigned_sound {negative : Bool} {l : Literal}
    (h : takeUnsigned atEnd negative cs = .ok (l, rest)) :
    ∃ form, IsNumber l (signChars negative ++ form) ∧ cs = form ++ rest := by
  unfold takeUnsigned at h
  split at h
  · cases h
  · next whole cs₁ hwhole =>
    split at h
    · cases h
    · next fraction cs₂ hfraction =>
      split at h
      · cases h
      · next exponent cs₃ hexponent =>
        obtain ⟨rfl, rfl⟩ := Prod.mk.inj (Except.ok.inj h)
        obtain ⟨hdigits, hzero, -, rfl⟩ := takeWhole_sound hwhole
        obtain ⟨form₂, hform₂, rfl⟩ := takeFraction_sound hfraction
        obtain ⟨form₃, hform₃, rfl⟩ := takeExponent_sound hexponent
        refine ⟨whole ++ form₂ ++ form₃, ⟨hdigits, hzero, form₂, form₃, hform₂, hform₃, ?_⟩, ?_⟩
        · simp only [signChars, List.append_assoc]
        · simp only [List.append_assoc]

theorem takeUnsigned_complete {l : Literal} {form : List Char}
    (h : IsNumber l (signChars l.negative ++ form)) (hrest : Ended rest) :
    takeUnsigned atEnd l.negative (form ++ rest) = .ok (l, rest) := by
  obtain ⟨form₂, form₃, hform₂, hform₃, hparts⟩ := h.parts
  obtain rfl : form = l.whole ++ form₂ ++ form₃ := by
    simp only [signChars, List.append_assoc] at hparts
    rw [List.append_assoc, List.append_cancel_left hparts]
  -- none of the parts goes on with the one behind it
  have hend := hform₃.noDigit hrest
  have hnoDigit : NoDigit (form₃ ++ rest) := fun c hc => (hend c hc).1
  rw [takeUnsigned, List.append_assoc, List.append_assoc,
    takeWhole_complete h.whole h.zero (hform₂.noDigit hnoDigit)]
  simp only [takeFraction_complete hform₂ hnoDigit fun c hc => (hend c hc).2,
    takeExponent_complete hform₃ hrest]

/-- **What is taken is a number.** -/
theorem takeLiteral_sound {l : Literal} (h : takeLiteral atEnd cs = .ok (l, rest)) :
    ∃ form, IsNumber l form ∧ cs = form ++ rest := by
  unfold takeLiteral at h
  split at h
  · obtain ⟨form, hform, rfl⟩ := takeUnsigned_sound h
    exact ⟨_, hform, rfl⟩
  · obtain ⟨form, hform, rfl⟩ := takeUnsigned_sound h
    exact ⟨_, hform, rfl⟩

/-- There is always a digit, and only the sign comes before it. -/
theorem IsNumber.eq_append {l : Literal} {form : List Char} (h : IsNumber l form) :
    ∃ c digits, c.isDigit = true ∧ form = signChars l.negative ++ c :: digits := by
  obtain ⟨form₂, form₃, -, -, rfl⟩ := h.parts
  obtain ⟨hne, hdigits⟩ := h.whole
  cases hwhole : l.whole with
  | nil => exact absurd hwhole hne
  | cons c digits =>
    refine ⟨c, digits ++ form₂ ++ form₃, hdigits c (by rw [hwhole]; exact List.mem_cons_self ..), ?_⟩
    simp only [signChars, List.append_assoc, List.cons_append]

/-- **Every number is taken as a whole**, if nothing follows that could belong to it. -/
theorem takeLiteral_complete {l : Literal} {form : List Char} (h : IsNumber l form)
    (hrest : Ended rest) : takeLiteral atEnd (form ++ rest) = .ok (l, rest) := by
  obtain ⟨c, digits, hc, rfl⟩ := h.eq_append
  have hunsigned : takeUnsigned atEnd l.negative (c :: digits ++ rest) = .ok (l, rest) :=
    takeUnsigned_complete h hrest
  cases hnegative : l.negative with
  | true =>
    rw [hnegative] at hunsigned
    exact hunsigned
  | false =>
    rw [hnegative] at hunsigned
    rw [signChars, if_neg Bool.false_ne_true, List.nil_append, List.cons_append, takeLiteral]
    · exact hunsigned
    · rintro cs heq
      obtain rfl := (List.cons.inj heq).1
      exact absurd hc (by decide)

/-! ## Decimal digits -/

theorem ofDigitChars_append_singleton (digits : List Char) (c : Char) :
    Nat.ofDigitChars 10 (digits ++ [c]) 0 = 10 * Nat.ofDigitChars 10 digits 0 + (c.toNat - 48) := by
  rw [Nat.ofDigitChars_append]
  rfl

/-- A decimal digit stands for itself. -/
theorem digitChar_of_isDigit (h : c.isDigit = true) :
    c.toNat - 48 < 10 ∧ Nat.digitChar (c.toNat - 48) = c := by
  have hrange : 48 ≤ c.toNat ∧ c.toNat ≤ 57 := by
    simp only [Char.isDigit, Bool.and_eq_true, decide_eq_true_eq, ge_iff_le,
      UInt32.le_iff_toNat_le] at h
    exact h
  have hall : ∀ k < 10, Nat.digitChar k = Char.ofNat (48 + k) := by decide
  refine ⟨by omega, ?_⟩
  rw [hall _ (by omega), Nat.add_sub_cancel' hrange.1, Char.ofNat_toNat]

/-- Digits without a zero in front are the decimal digits of what they stand for. -/
theorem toDigits_ofDigitChars {digits : List Char} (h : IsDigits digits)
    (hzero : digits.head? = some '0' → digits = ['0']) :
    Nat.toDigits 10 (Nat.ofDigitChars 10 digits 0) = digits := by
  induction digits using List.reverseRecOn with
  | nil => exact absurd rfl h.1
  | append_singleton digits c ih =>
    obtain ⟨hlt, hc⟩ := digitChar_of_isDigit (h.2 c (by simp))
    rw [ofDigitChars_append_singleton]
    by_cases hne : digits = []
    · rw [hne, Nat.ofDigitChars_nil, Nat.mul_zero, Nat.zero_add, Nat.toDigits_of_lt_base hlt, hc]
      rfl
    · -- all but the last digit have no zero in front either
      have hhead : digits.head? ≠ some '0' := by
        intro hhead
        have halone := hzero (by rw [List.head?_append, hhead]; rfl)
        exact hne (List.append_eq_singleton_iff.1 halone |>.elim And.left fun h => by simp at h)
      have hself := ih ⟨hne, fun d hd => h.2 d (List.mem_append_left _ hd)⟩ fun h => absurd h hhead
      -- so they are worth something, and one more digit goes behind theirs
      have hpos : 0 < Nat.ofDigitChars 10 digits 0 := by
        refine Nat.pos_of_ne_zero fun hvalue => hhead ?_
        rw [hvalue, Nat.toDigits_zero] at hself
        rw [← hself]
        rfl
      rw [← Nat.toDigits_append_toDigits (by decide) hpos hlt, hself, Nat.toDigits_of_lt_base hlt, hc]

/-- The first of the decimal digits is a zero of zero only. -/
theorem head?_toDigits {n : Nat} (h : (Nat.toDigits 10 n).head? = some '0') : n = 0 := by
  induction n using Nat.strongRecOn with
  | ind n ih =>
    by_cases hlt : n < 10
    · rw [Nat.toDigits_of_lt_base hlt] at h
      exact Nat.digitChar_eq_zero.1 (Option.some.inj h)
    · rw [Nat.toDigits_of_base_le (by decide) (Nat.not_lt.1 hlt), List.head?_append_of_ne_nil _
        Nat.toDigits_ne_nil] at h
      have := ih (n / 10) (by omega) h
      omega

theorem isDigits_toDigits (n : Nat) : IsDigits (Nat.toDigits 10 n) :=
  ⟨Nat.toDigits_ne_nil, fun _ hc => Nat.isDigit_of_mem_toDigits (by decide) (by decide) hc⟩

theorem toList_toString_natCast (n : Nat) : (toString (n : Int)).toList = Nat.toDigits 10 n :=
  Nat.toList_repr

theorem toList_toString_neg {n : Nat} (h : 0 < n) :
    (toString (-(n : Int))).toList = '-' :: Nat.toDigits 10 n := by
  cases n with
  | zero => exact absurd h (Nat.lt_irrefl 0)
  | succ n =>
    show ("-" ++ Nat.repr (n + 1)).toList = _
    rw [String.toList_append, Nat.toList_repr]
    rfl

/-! ## Values -/

theorem le_ofDigitChars (digits : List Char) (n : Nat) : n ≤ Nat.ofDigitChars 10 digits n := by
  induction digits generalizing n with
  | nil => exact Nat.le_refl n
  | cons c digits ih =>
    rw [Nat.ofDigitChars_cons]
    exact Nat.le_trans (by omega) (ih _)

/-- Digits that are worth no more than the limit are all read. -/
theorem accumulate_of_le {limit : Nat} {digits : List Char} {n : Nat}
    (h : Nat.ofDigitChars 10 digits n ≤ limit) :
    accumulate limit n digits = (Nat.ofDigitChars 10 digits n, []) := by
  induction digits generalizing n with
  | nil => rfl
  | cons c digits ih =>
    rw [Nat.ofDigitChars_cons] at h ⊢
    have hnext : n * 10 + (c.toNat - 48) = 10 * n + (c.toNat - '0'.toNat) := by
      rw [Nat.mul_comm]
      rfl
    rw [accumulate, hnext, if_neg (Nat.not_lt.2 (Nat.le_trans (le_ofDigitChars digits _) h)), ih h]

/-- Digits that are all read are worth what was read, and no more than the limit. -/
theorem accumulate_eq_ofDigitChars {limit : Nat} {digits : List Char} {n : Nat} (hn : n ≤ limit)
    (h : (accumulate limit n digits).2 = []) :
    (accumulate limit n digits).1 = Nat.ofDigitChars 10 digits n ∧
      Nat.ofDigitChars 10 digits n ≤ limit := by
  induction digits generalizing n with
  | nil => exact ⟨rfl, hn⟩
  | cons c digits ih =>
    have hnext : n * 10 + (c.toNat - 48) = 10 * n + (c.toNat - '0'.toNat) := by
      rw [Nat.mul_comm]
      rfl
    rw [Nat.ofDigitChars_cons]
    rw [accumulate, hnext] at h ⊢
    split at h
    · cases h
    · next hle =>
      rw [if_neg hle]
      exact ih (Nat.not_lt.1 hle) h

/-- An integer is within the sixty-four bits that a number may take. -/
def IsLong (n : Int) : Prop := -(2 ^ 63) ≤ n ∧ n < 2 ^ 64

/-- What is worth an integer has neither fraction nor exponent, and a minus sign just when it is
negative. -/
theorem value_eq_integer {l : Literal} {n : Int} (h : l.value = .ok (.integer n)) :
    l.fraction = none ∧ l.exponent = none ∧ IsLong n ∧
      (l.negative = false ∧ n = Nat.ofDigitChars 10 l.whole 0 ∨
        l.negative = true ∧ 0 < Nat.ofDigitChars 10 l.whole 0 ∧
          n = -(Nat.ofDigitChars 10 l.whole 0 : Int)) := by
  have hpow : Nat.pow 2 63 = 2 ^ 63 := rfl
  rw [Literal.value] at h
  cases hwhole : l.fraction.isNone && l.exponent.isNone
      && (accumulate (UInt64.size - 1) 0 l.whole).2.isEmpty with
  | false =>
    -- with a fraction, an exponent or too many digits it is worth a float
    rw [hwhole] at h
    simp only [Bool.false_and, Bool.false_eq_true, if_false] at h
    split at h <;> cases h
  | true =>
    rw [hwhole] at h
    simp only [Bool.and_eq_true, Option.isNone_iff_eq_none, List.isEmpty_iff] at hwhole
    obtain ⟨⟨hfraction, hexponent⟩, hrest⟩ := hwhole
    obtain ⟨hvalue, hle⟩ := accumulate_eq_ofDigitChars (Nat.zero_le _) hrest
    rw [hvalue] at h
    refine ⟨hfraction, hexponent, ?_⟩
    cases hnegative : l.negative with
    | false =>
      rw [hnegative, if_pos (by rfl)] at h
      obtain rfl := Number.integer.inj (Except.ok.inj h)
      exact ⟨by simp only [IsLong, UInt64.size] at hle ⊢; omega, .inl ⟨rfl, rfl⟩⟩
    | true =>
      rw [hnegative, if_neg (by decide)] at h
      split at h
      · next hbounds =>
        -- minus zero is none, and neither is what is below the least integer
        simp only [Bool.and_eq_true, decide_eq_true_eq] at hbounds
        obtain rfl := Number.integer.inj (Except.ok.inj h)
        exact ⟨by simp only [IsLong]; omega, .inr ⟨rfl, hbounds.1.2, rfl⟩⟩
      · split at h <;> cases h

/-- What is worth an integer is written as that integer. -/
theorem eq_toString_of_value {l : Literal} {form : List Char} {n : Int} (hform : IsNumber l form)
    (h : l.value = .ok (.integer n)) : form = (toString n).toList := by
  obtain ⟨form₂, form₃, hform₂, hform₃, rfl⟩ := hform.parts
  obtain ⟨hfraction, hexponent, -, hsign⟩ := value_eq_integer h
  rw [hfraction] at hform₂
  rw [hexponent] at hform₃
  obtain rfl : form₂ = [] := hform₂
  obtain rfl : form₃ = [] := hform₃
  have hself := toDigits_ofDigitChars hform.whole hform.zero
  rcases hsign with ⟨hnegative, rfl⟩ | ⟨hnegative, hpos, rfl⟩
  · rw [hnegative, toList_toString_natCast, hself]
    simp
  · rw [hnegative, toList_toString_neg hpos, hself]
    simp

/-- The literal that an integer is written as. -/
def Literal.ofInt (n : Int) : Literal := ⟨decide (n < 0), Nat.toDigits 10 n.natAbs, none, none⟩

/-- An integer is written as its sign and the digits of how much it is. -/
theorem toList_toString (n : Int) :
    (toString n).toList = signChars (decide (n < 0)) ++ Nat.toDigits 10 n.natAbs := by
  by_cases h : n < 0
  · obtain ⟨m, rfl⟩ : ∃ m : Nat, n = -m := ⟨n.natAbs, by omega⟩
    rw [toList_toString_neg (by omega), decide_eq_true h, Int.natAbs_neg, Int.natAbs_natCast]
    rfl
  · obtain ⟨m, rfl⟩ : ∃ m : Nat, n = m := ⟨n.natAbs, by omega⟩
    rw [toList_toString_natCast, decide_eq_false h, Int.natAbs_natCast]
    rfl

theorem isNumber_toString (n : Int) : IsNumber (.ofInt n) (toString n).toList where
  whole := isDigits_toDigits _
  zero h := by
    have hzero : Nat.toDigits 10 n.natAbs = ['0'] := by
      rw [head?_toDigits h, Nat.toDigits_zero]
    exact hzero
  parts := ⟨[], [], rfl, rfl, by rw [toList_toString]; simp [signChars, Literal.ofInt]⟩

/-- An integer within sixty-four bits is worth itself. -/
theorem value_ofInt {n : Int} (h : IsLong n) : (Literal.ofInt n).value = .ok (.integer n) := by
  have hvalue : Nat.ofDigitChars 10 (Nat.toDigits 10 n.natAbs) 0 = n.natAbs :=
    Nat.ofDigitChars_ten_toDigits
  -- within sixty-four bits, no digit is left over
  have hread : accumulate (UInt64.size - 1) 0 (Nat.toDigits 10 n.natAbs) = (n.natAbs, []) := by
    have hle : Nat.ofDigitChars 10 (Nat.toDigits 10 n.natAbs) 0 ≤ UInt64.size - 1 := by
      rw [hvalue]
      simp only [IsLong, UInt64.size] at h ⊢
      omega
    rw [accumulate_of_le hle, hvalue]
  rw [Literal.value]
  simp only [Literal.ofInt, hread, Option.isNone_none, List.isEmpty_nil, Bool.and_self,
    Bool.true_and]
  by_cases hneg : n < 0
  · rw [decide_eq_true hneg, if_neg (by decide), if_pos]
    · rw [show -((n.natAbs : Nat) : Int) = n by omega]
    · have hpow : Nat.pow 2 63 = 2 ^ 63 := rfl
      simp only [IsLong] at h
      simp only [Bool.and_eq_true, decide_eq_true_eq, hpow]
      omega
  · rw [decide_eq_false hneg, if_pos (by decide)]
    rw [show ((n.natAbs : Nat) : Int) = n by omega]

/-- A number that is worth an integer is the integer as it is written, and is taken as a whole. -/
theorem takeNumber_sound {n : Int} (h : takeNumber cs = .ok (.integer n, rest)) :
    cs = (toString n).toList ++ rest := by
  unfold takeNumber at h
  split at h
  · cases h
  · next l rest' hliteral =>
    split at h
    · cases h
    · next number hvalue =>
      obtain ⟨rfl, rfl⟩ := Prod.mk.inj (Except.ok.inj h)
      obtain ⟨form, hform, rfl⟩ := takeLiteral_sound hliteral
      rw [eq_toString_of_value hform hvalue]

theorem takeNumber_complete {n : Int} (h : IsLong n) (hrest : Ended rest) :
    takeNumber ((toString n).toList ++ rest) = .ok (.integer n, rest) := by
  rw [takeNumber, takeLiteral_complete (isNumber_toString n) hrest]
  dsimp only
  rw [value_ofInt h]

end Switchboard.Json
