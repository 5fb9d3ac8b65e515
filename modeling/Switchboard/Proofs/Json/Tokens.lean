import Switchboard.Proofs.Json.Grammar

/-!
# Tokens are read as the grammar has them

Each reader of a token takes off the front of a text just what the grammar says that the token looks
like. Where a token tells its own end, as a text between quotes does, that is an equivalence. A number
does not, so what follows it must not begin with something that could belong to it (`Ended`).
-/

namespace Switchboard.Json

variable {cs rest blank : List Char} {c : Char}

/-! ## Blanks and words -/

theorem isBlank_iff : isBlank c = true ↔ c ∈ [' ', '\n', '\t', '\r'] := by
  simp [isBlank, or_assoc]

theorem blank_nil : Blank [] := fun _ h => absurd h List.not_mem_nil

theorem blank_append {blank' : List Char} (h : Blank blank) (h' : Blank blank') :
    Blank (blank ++ blank') :=
  List.forall_mem_append.2 ⟨h, h'⟩

/-- What is skipped is blank. -/
theorem exists_blank_append_skipBlanks (cs : List Char) :
    ∃ blank, Blank blank ∧ cs = blank ++ skipBlanks cs :=
  ⟨cs.takeWhile isBlank, fun _ hc => isBlank_iff.1 (List.all_eq_true.1 List.all_takeWhile _ hc),
    List.takeWhile_append_dropWhile.symm⟩

theorem skipBlanks_append (h : Blank blank) (cs : List Char) :
    skipBlanks (blank ++ cs) = skipBlanks cs :=
  List.dropWhile_append_of_pos fun c hc => isBlank_iff.2 (h c hc)

theorem skipBlanks_cons (h : c ∉ [' ', '\n', '\t', '\r']) (cs : List Char) :
    skipBlanks (c :: cs) = c :: cs :=
  List.dropWhile_cons_of_neg fun hc => h (isBlank_iff.1 hc)

/-- Blanks are skipped up to a character that is none. -/
theorem skipBlanks_blank_cons (h : Blank blank) (hc : c ∉ [' ', '\n', '\t', '\r'])
    (cs : List Char) : skipBlanks (blank ++ c :: cs) = c :: cs := by
  rw [skipBlanks_append h, skipBlanks_cons hc]

theorem eq_of_skipBlanks (h : skipBlanks cs = c :: rest) :
    ∃ blank, Blank blank ∧ cs = blank ++ c :: rest := by
  obtain ⟨blank, hblank, hcs⟩ := exists_blank_append_skipBlanks cs
  exact ⟨blank, hblank, h ▸ hcs⟩

/-- A word is taken letter by letter. -/
theorem expectWord_iff {word : List Char} : expectWord word cs = .ok rest ↔ cs = word ++ rest := by
  induction word generalizing cs with
  | nil => exact ⟨fun h => Except.ok.inj h, fun h => congrArg Except.ok h⟩
  | cons w word ih =>
    cases cs with
    | nil => exact ⟨fun h => (by cases h), fun h => (by cases h)⟩
    | cons c cs =>
      rw [expectWord, List.cons_append, List.cons.injEq, ← ih]
      split
      · next hc => exact ⟨fun h => ⟨hc, h⟩, fun h => h.2⟩
      · next hc => exact ⟨fun h => (by cases h), fun h => absurd h.1 hc⟩

/-! ## Escapes -/

/-- Hexadecimal digits may have small and capital letters. -/
theorem digit?_iff {n : Nat} : Text.digit? 16 c = some n ↔ IsHex c n := by
  constructor
  · intro h
    refine ⟨Text.digit?_lt h, ?_⟩
    -- beyond the letter f there is no digit, so a few characters are left to be looked at
    have hlow : c.toNat < 103 := by
      refine Nat.lt_of_not_le fun hlarge => ?_
      have hnot : ∀ d : Char, d.toNat < 103 → ¬ c ≤ d := fun d hd hle =>
        Nat.not_lt.2 hlarge (Nat.lt_of_le_of_lt (UInt32.le_iff_toNat_le.1 hle) hd)
      simp [Text.digit?, hnot '9' (by decide), hnot 'f' (by decide), hnot 'F' (by decide)] at h
    have hall : ∀ k < 103, ∀ n ∈ Text.digit? 16 (Char.ofNat k),
        Char.ofNat k = Nat.digitChar n ∨ Char.ofNat k = (Nat.digitChar n).toUpper := by decide
    have hdigit := hall c.toNat hlow n (by rwa [Char.ofNat_toNat])
    rwa [Char.ofNat_toNat] at hdigit
  · rintro ⟨hn, hc⟩
    -- the other way round, each digit has two characters at most
    have hall : ∀ n < 16, Text.digit? 16 (Nat.digitChar n) = some n ∧
        Text.digit? 16 (Nat.digitChar n).toUpper = some n := by decide
    rcases hc with rfl | rfl
    · exact (hall n hn).1
    · exact (hall n hn).2

theorem IsUnit.lt {digits : List Char} {n : Nat} (h : IsUnit digits n) : n < 0x10000 := by
  cases h with
  | digits ha hb hc hd =>
    have := ha.1
    have := hb.1
    have := hc.1
    have := hd.1
    omega

/-- Four hexadecimal digits are a unit of UTF-16. -/
theorem takeHex4_iff {n : Nat} :
    takeHex4 cs = .ok (n, rest) ↔ ∃ digits, IsUnit digits n ∧ cs = digits ++ rest := by
  constructor
  · intro h
    unfold takeHex4 at h
    split at h
    · next a b c d cs =>
      split at h
      · next i j k l ha hb hc hd =>
        obtain ⟨rfl, rfl⟩ := Prod.mk.inj (Except.ok.inj h)
        refine ⟨[a, b, c, d], ?_, rfl⟩
        have hunit := IsUnit.digits (digit?_iff.1 ha) (digit?_iff.1 hb) (digit?_iff.1 hc)
          (digit?_iff.1 hd)
        have hvalue : ((i * 16 + j) * 16 + k) * 16 + l
            = i * 16 ^ 3 + j * 16 ^ 2 + k * 16 + l := by omega
        rwa [hvalue]
      · cases h
    · split at h <;> cases h
  · rintro ⟨digits, h, rfl⟩
    cases h with
    | @digits a b c d i j k l ha hb hc hd =>
      have hvalue : ((i * 16 + j) * 16 + k) * 16 + l
          = i * 16 ^ 3 + j * 16 ^ 2 + k * 16 + l := by omega
      simp only [List.cons_append, List.nil_append, takeHex4, digit?_iff.2 ha, digit?_iff.2 hb,
        digit?_iff.2 hc, digit?_iff.2 hd, hvalue]

theorem simpleEscape?_iff {letter : Char} :
    simpleEscape? letter = some c ↔ (letter, c) ∈ escapes := by
  unfold simpleEscape?
  repeat' split
  all_goals simp_all [escapes, eq_comm]

/-- No escape is taken for the other kind: the letter of one is no `u`. -/
theorem ne_u_of_mem_escapes {letter : Char} (h : (letter, c) ∈ escapes) : letter ≠ 'u' := by
  rintro rfl
  exact absurd (simpleEscape?_iff.2 h) (by simp [simpleEscape?])

theorem isTrail_iff {n : Nat} : isTrail n = true ↔ 0xDC00 ≤ n ∧ n ≤ 0xDFFF := by
  simp [isTrail]

theorem isLead_iff {n : Nat} : isLead n = true ↔ 0xD800 ≤ n ∧ n ≤ 0xDBFF := by
  simp [isLead]

theorem pair_eq (lead n : Nat) : (lead - 0xD800) * 1024 + (n - 0xDC00) + 0x10000
    = 0x10000 + (lead - 0xD800) * 0x400 + (n - 0xDC00) := by
  omega

/-- The second half of a pair, in an escape of its own. -/
theorem takeTrail_iff {lead : Nat} :
    takeTrail lead cs = .ok (c, rest) ↔ ∃ trail n, IsUnit trail n ∧ (0xDC00 ≤ n ∧ n ≤ 0xDFFF) ∧
      c = Char.ofNat (0x10000 + (lead - 0xD800) * 0x400 + (n - 0xDC00)) ∧
      cs = '\\' :: 'u' :: trail ++ rest := by
  constructor
  · intro h
    unfold takeTrail at h
    split at h
    · cases h
    · cases h
    · split at h
      · cases h
      · next n rest' hhex =>
        split at h
        · next hn =>
          rw [Except.ok.injEq, Prod.mk.injEq] at h
          obtain ⟨rfl, rfl⟩ := h
          obtain ⟨trail, htrail, rfl⟩ := takeHex4_iff.1 hhex
          exact ⟨trail, n, htrail, isTrail_iff.1 hn, by rw [pair_eq], rfl⟩
        · cases h
    · cases h
  · rintro ⟨trail, n, htrail, hn, hc, rfl⟩
    have hhex : takeHex4 (trail ++ rest) = .ok (n, rest) := takeHex4_iff.2 ⟨trail, htrail, rfl⟩
    simp only [List.cons_append, takeTrail, hhex, isTrail_iff.2 hn, if_true, pair_eq, hc]

/-- After a backslash and `u`: a character of its own, or the first half of a pair and the second
one. -/
theorem takeUnicode_iff :
    takeUnicode cs = .ok (c, rest) ↔ ∃ piece, SpellsChar ('\\' :: 'u' :: piece) c ∧
      cs = piece ++ rest := by
  constructor
  · intro h
    unfold takeUnicode at h
    split at h
    · cases h
    · next n rest' hhex =>
      obtain ⟨digits, hdigits, rfl⟩ := takeHex4_iff.1 hhex
      split at h
      · cases h
      · next htrail =>
        split at h
        · next hlead =>
          -- the first half of a pair, which says nothing without the second one
          obtain ⟨trail, n', htrail', hn', hc, rfl⟩ := takeTrail_iff.1 h
          rw [hc]
          exact ⟨digits ++ '\\' :: 'u' :: trail, .pair hdigits htrail' (isLead_iff.1 hlead) hn',
            (List.append_assoc ..).symm⟩
        · next hlead =>
          -- neither half of a pair: a character
          obtain ⟨rfl, rfl⟩ := Prod.mk.inj (Except.ok.inj h)
          have hlt := hdigits.lt
          rw [isTrail_iff] at htrail
          rw [isLead_iff] at hlead
          exact ⟨digits, .unit hdigits (by simp only [Nat.isValidChar]; omega), rfl⟩
  · rintro ⟨piece, h, rfl⟩
    generalize hspelled : '\\' :: 'u' :: piece = spelled at h
    cases h with
    | plain h => cases hspelled
    | escape h =>
      cases hspelled
      exact absurd rfl (ne_u_of_mem_escapes h)
    | @unit digits n h hn =>
      cases hspelled
      have hhex : takeHex4 (piece ++ rest) = .ok (n, rest) := takeHex4_iff.2 ⟨piece, h, rfl⟩
      -- what is a character is no half of a pair
      have htrail : isTrail n = false := by
        rw [Bool.eq_false_iff, Ne, isTrail_iff]
        simp only [Nat.isValidChar] at hn
        omega
      have hlead : isLead n = false := by
        rw [Bool.eq_false_iff, Ne, isLead_iff]
        simp only [Nat.isValidChar] at hn
        omega
      simp [takeUnicode, hhex, htrail, hlead]
    | @pair lead trail m n hl ht hm hn =>
      obtain rfl : piece = lead ++ '\\' :: 'u' :: trail := (List.cons.inj (List.cons.inj hspelled).2).2
      have hhex : takeHex4 (lead ++ ('\\' :: 'u' :: trail ++ rest))
          = .ok (m, '\\' :: 'u' :: trail ++ rest) := takeHex4_iff.2 ⟨lead, hl, rfl⟩
      have htrail : isTrail m = false := by
        rw [Bool.eq_false_iff, Ne, isTrail_iff]
        omega
      rw [List.append_assoc, takeUnicode, hhex]
      simp only [htrail, isLead_iff.2 hm, if_true, Bool.false_eq_true, if_false]
      exact takeTrail_iff.2 ⟨trail, n, ht, hn, rfl, rfl⟩

/-- Behind a backslash: one letter, or a unit in digits. -/
theorem takeEscape_iff :
    takeEscape cs = .ok (c, rest) ↔ ∃ piece, SpellsChar ('\\' :: piece) c ∧ cs = piece ++ rest := by
  constructor
  · intro h
    unfold takeEscape at h
    split at h
    · cases h
    · next letter cs =>
      split at h
      · next hletter =>
        obtain ⟨piece, hpiece, rfl⟩ := takeUnicode_iff.1 h
        exact ⟨letter :: piece, hletter ▸ hpiece, rfl⟩
      · split at h
        · next d hd =>
          obtain ⟨rfl, rfl⟩ := Prod.mk.inj (Except.ok.inj h)
          exact ⟨[letter], .escape (simpleEscape?_iff.1 hd), rfl⟩
        · cases h
  · rintro ⟨piece, h, rfl⟩
    -- both kinds of escapes with digits go the same way
    have hunicode : ∀ {digits}, SpellsChar ('\\' :: 'u' :: digits) c →
        takeEscape ('u' :: digits ++ rest) = .ok (c, rest) := fun {digits} h => by
      rw [List.cons_append, takeEscape, if_pos rfl]
      exact takeUnicode_iff.2 ⟨digits, h, rfl⟩
    generalize hspelled : '\\' :: piece = spelled at h
    cases h with
    | plain h =>
      cases hspelled
      exact absurd rfl h.2.2
    | escape h =>
      cases hspelled
      rw [List.cons_append, takeEscape, if_neg (ne_u_of_mem_escapes h), simpleEscape?_iff.2 h]
      rfl
    | unit h hn =>
      cases hspelled
      exact hunicode (.unit h hn)
    | pair hl ht hm hn =>
      cases hspelled
      exact hunicode (.pair hl ht hm hn)

/-! ## Texts -/

theorem takeText_plain {done : List Char} (h : IsPlain c) :
    takeText done (c :: cs) = takeText (c :: done) cs := by
  rw [takeText, if_neg h.2.1, if_neg h.2.2, if_neg (Nat.not_lt.2 h.1)]

theorem takeText_escape {done : List Char} (h : takeEscape cs = .ok (c, rest)) :
    takeText done ('\\' :: cs) = takeText (c :: done) rest := by
  rw [takeText, if_neg (by decide), if_pos rfl]
  split
  · next hfault => cases h.symm.trans hfault
  · next hok =>
    obtain ⟨rfl, rfl⟩ := Prod.mk.inj (Except.ok.inj (h.symm.trans hok))
    rfl

/-- **A text is read up to its quote**, and every character in it may be spelled in any way. -/
theorem takeText_iff {done text : List Char} :
    takeText done cs = .ok (text, rest) ↔
      ∃ inner read, Spells inner read ∧ text = done.reverse ++ read ∧ cs = inner ++ '"' :: rest := by
  constructor
  · intro h
    fun_induction takeText done cs with
    | case1 => cases h
    | case2 =>
      obtain ⟨rfl, rfl⟩ := Prod.mk.inj (Except.ok.inj h)
      exact ⟨[], [], .nil, (List.append_nil _).symm, rfl⟩
    | case3 => cases h
    | case4 done cs d rest' hescape _ ih =>
      obtain ⟨inner, read, hinner, rfl, rfl⟩ := ih h
      obtain ⟨piece, hpiece, rfl⟩ := takeEscape_iff.1 hescape
      exact ⟨_, d :: read, .cons hpiece hinner, by simp, by simp⟩
    | case5 => cases h
    | case6 done c cs hquote hbackslash hcontrol ih =>
      obtain ⟨inner, read, hinner, rfl, rfl⟩ := ih h
      exact ⟨_, c :: read, .cons (.plain ⟨Nat.not_lt.1 hcontrol, hquote, hbackslash⟩) hinner,
        by simp, by simp⟩
  · rintro ⟨inner, read, h, rfl, rfl⟩
    induction h generalizing done with
    | nil =>
      rw [List.nil_append, takeText, if_pos rfl, List.append_nil]
    | @cons piece cs text c h hrest ih =>
      -- one character is taken, however it is spelled
      have hstep : takeText done (piece ++ (cs ++ '"' :: rest))
          = takeText (c :: done) (cs ++ '"' :: rest) := by
        cases h with
        | plain h => exact takeText_plain h
        | escape h => exact takeText_escape (takeEscape_iff.2 ⟨_, .escape h, rfl⟩)
        | unit h hn => exact takeText_escape (takeEscape_iff.2 ⟨_, .unit h hn, rfl⟩)
        | pair hl ht hm hn =>
          refine takeText_escape (takeEscape_iff.2 ⟨_, .pair hl ht hm hn, ?_⟩)
          simp
      rw [List.append_assoc, hstep, ih]
      simp

/-- Characters that stand for themselves spell themselves. -/
theorem spells_of_plain {cs : List Char} (h : ∀ c ∈ cs, IsPlain c) : Spells cs cs := by
  induction cs with
  | nil => exact .nil
  | cons c cs ih =>
    obtain ⟨hc, hcs⟩ := List.forall_mem_cons.1 h
    exact .cons (.plain hc) (ih hcs)

theorem skipText_plain (h : IsPlain c) : skipText (c :: cs) = skipText cs := by
  rw [skipText, if_neg h.2.1, if_neg h.2.2, if_neg (Nat.not_lt.2 h.1)]

theorem skipText_escape (h : skipEscape cs = .ok rest) : skipText ('\\' :: cs) = skipText rest := by
  rw [skipText, if_neg (by decide), if_pos rfl]
  split
  · next hfault => cases h.symm.trans hfault
  · next hok =>
    obtain rfl := Except.ok.inj (h.symm.trans hok)
    rfl

/-- A text that nobody reads may have halves of pairs in it: only the form of an escape is looked
at. -/
theorem skipEscape_iff :
    skipEscape cs = .ok rest ↔ ∃ piece, IsPiece ('\\' :: piece) ∧ cs = piece ++ rest := by
  constructor
  · intro h
    unfold skipEscape at h
    split at h
    · cases h
    · next letter cs =>
      split at h
      · next hletter =>
        split at h
        · cases h
        · next n rest' hhex =>
          obtain rfl := Except.ok.inj h
          obtain ⟨digits, hdigits, rfl⟩ := takeHex4_iff.1 hhex
          exact ⟨letter :: digits, hletter ▸ .unit hdigits, rfl⟩
      · split at h
        · next d hd =>
          obtain rfl := Except.ok.inj h
          exact ⟨[letter], .escape (simpleEscape?_iff.1 hd), rfl⟩
        · cases h
  · rintro ⟨piece, h, rfl⟩
    generalize hspelled : '\\' :: piece = spelled at h
    cases h with
    | plain h =>
      cases hspelled
      exact absurd rfl h.2.2
    | escape h =>
      cases hspelled
      rw [List.cons_append, skipEscape, if_neg (ne_u_of_mem_escapes h), simpleEscape?_iff.2 h]
      rfl
    | @unit digits n h =>
      cases hspelled
      rw [List.cons_append, skipEscape, if_pos rfl, takeHex4_iff.2 ⟨digits, h, rfl⟩]

/-- **A text is stepped over up to its quote.** -/
theorem skipText_iff :
    skipText cs = .ok rest ↔ ∃ inner, IsText inner ∧ cs = inner ++ '"' :: rest := by
  constructor
  · intro h
    fun_induction skipText cs with
    | case1 => cases h
    | case2 =>
      obtain rfl := Except.ok.inj h
      exact ⟨[], .nil, rfl⟩
    | case3 => cases h
    | case4 cs rest' hescape _ ih =>
      obtain ⟨inner, hinner, rfl⟩ := ih h
      obtain ⟨piece, hpiece, rfl⟩ := skipEscape_iff.1 hescape
      exact ⟨_, .cons hpiece hinner, by simp⟩
    | case5 => cases h
    | case6 c cs hquote hbackslash hcontrol ih =>
      obtain ⟨inner, hinner, rfl⟩ := ih h
      exact ⟨_, .cons (.plain ⟨Nat.not_lt.1 hcontrol, hquote, hbackslash⟩) hinner, by simp⟩
  · rintro ⟨inner, h, rfl⟩
    induction h with
    | nil => rw [List.nil_append, skipText, if_pos rfl]
    | @cons piece cs h hrest ih =>
      -- one piece of the text is stepped over
      have hstep : skipText (piece ++ (cs ++ '"' :: rest)) = skipText (cs ++ '"' :: rest) := by
        cases h with
        | plain h => exact skipText_plain h
        | escape h => exact skipText_escape (skipEscape_iff.2 ⟨_, .escape h, rfl⟩)
        | unit h => exact skipText_escape (skipEscape_iff.2 ⟨_, .unit h, rfl⟩)
      rw [List.append_assoc, hstep, ih]

end Switchboard.Json
