import Switchboard.Proofs.Json.Reading

/-!
# Records

A record is read from the members of an object, whatever their order (`ReadsMembers`), or from the
items of a list that stand for its fields in order (`ReadsItems`). A member whose name is no field's is
stepped over, and a field that is given twice is no record. `recognizes_record` puts both together, and
`parse_iff` says when a whole text is read.
-/

namespace Switchboard.Json

variable {ι σ α : Type} {cs rest blank form : List Char} {seen fields : List ι} {s s' s'' : σ}

/-- Members of an object are read into a record one after another; `seen` are the fields that were
given before. `Form i s s'` is the form of a value that takes the record from `s` to `s'` as its
field `i`. -/
inductive ReadsMembers (shape : Shape ι σ) (Form : ι → σ → σ → List Char → Prop) :
    List ι → σ → List (String × List Char) → σ → Prop
  | done {seen : List ι} {s : σ} : ReadsMembers shape Form seen s [] s
  | known {seen : List ι} {s s' s'' : σ} {i : ι} {form : List Char}
      {members : List (String × List Char)} (hi : i ∈ shape.fields) (hseen : i ∉ seen)
      (hform : Form i s s' form) (hrest : ReadsMembers shape Form (i :: seen) s' members s'') :
      ReadsMembers shape Form seen s ((shape.name i, form) :: members) s''
  | unknown {seen : List ι} {s s' : σ} {name : String} {form : List Char}
      {members : List (String × List Char)} (hname : ∀ i ∈ shape.fields, shape.name i ≠ name)
      (hform : WellFormed form) (hrest : ReadsMembers shape Form seen s members s') :
      ReadsMembers shape Form seen s ((name, form) :: members) s'

/-- Items of a list are read as fields of a record, in order, as many as there are. -/
inductive ReadsItems (Form : ι → σ → σ → List Char → Prop) :
    List ι → σ → List (List Char) → σ → Prop
  | done {fields : List ι} {s : σ} : ReadsItems Form fields s [] s
  | next {fields : List ι} {s s' s'' : σ} {i : ι} {form : List Char} {forms : List (List Char)}
      (hform : Form i s s' form) (hrest : ReadsItems Form fields s' forms s'') :
      ReadsItems Form (i :: fields) s (form :: forms) s''

/-- The readers of the fields of a shape recognize values of some form, and no two fields have one
name. -/
structure Shape.Recognizes (shape : Shape ι σ) (Form : ι → σ → σ → List Char → Prop) : Prop where
  field (i : ι) (s : σ) : (shape.read i s).Recognizes (Form i s)
  name_inj {i j : ι} (hi : i ∈ shape.fields) (hj : j ∈ shape.fields)
    (h : shape.name i = shape.name j) : i = j

/-! ## Members -/

/-- An object that is over has only blanks left before its bracket. -/
theorem objectGoesOn_false {isFirst : Bool} (h : objectGoesOn isFirst cs = .ok (false, rest)) :
    ∃ blank, Blank blank ∧ cs = blank ++ Bracket.object.closing :: rest := by
  unfold objectGoesOn at h
  split at h
  · cases h
  · next c cs' hskip =>
    split at h
    · next hc =>
      cases h
      rw [hc] at hskip
      exact eq_of_skipBlanks hskip
    · split at h
      · split at h <;> cases h
      · split at h
        · split at h
          · cases h
          · split at h
            · cases h
            · split at h <;> cases h
        · cases h

/-- One that goes on does so with the quote of a key, and with a comma before it unless it is the
first one. -/
theorem objectGoesOn_true {isFirst : Bool} (h : objectGoesOn isFirst cs = .ok (true, rest)) :
    ∃ between, Between isFirst between ∧ cs = between ++ '"' :: rest := by
  unfold objectGoesOn at h
  split at h
  · cases h
  · next c cs' hskip =>
    obtain ⟨blank, hblank, rfl⟩ := eq_of_skipBlanks hskip
    split at h
    · cases h
    · split at h
      · next hfirst =>
        -- there is no comma before the first member
        subst hfirst
        split at h
        · next hc =>
          cases h
          exact ⟨blank, hblank, by rw [hc]⟩
        · cases h
      · next hfirst =>
        -- before every other one there is, and no bracket may follow it
        rw [Bool.not_eq_true] at hfirst
        subst hfirst
        split at h
        · next hc =>
          split at h
          · cases h
          · next d cs'' hskip' =>
            obtain ⟨blank', hblank', rfl⟩ := eq_of_skipBlanks hskip'
            split at h
            · next hd =>
              cases h
              exact ⟨_, ⟨blank, blank', hblank, hblank', rfl⟩, by simp [hc, hd]⟩
            · split at h <;> cases h
        · cases h

theorem objectGoesOn_closing (hblank : Blank blank) (isFirst : Bool) (rest : List Char) :
    objectGoesOn isFirst (blank ++ [Bracket.object.closing] ++ rest) = .ok (false, rest) := by
  rw [List.append_assoc, List.singleton_append, objectGoesOn,
    skipBlanks_blank_cons hblank (closing_not_blank .object)]
  rfl

theorem objectGoesOn_item {isFirst : Bool} {between : List Char} (hbetween : Between isFirst between)
    (cs : List Char) : objectGoesOn isFirst (between ++ '"' :: cs) = .ok (true, cs) := by
  cases isFirst with
  | true =>
    rw [objectGoesOn, skipBlanks_blank_cons hbetween (by decide)]
    rfl
  | false =>
    obtain ⟨blank, blank', hblank, hblank', rfl⟩ := hbetween
    rw [List.append_assoc, List.cons_append, objectGoesOn,
      skipBlanks_blank_cons hblank (by decide)]
    dsimp only
    rw [if_neg (by decide), if_neg Bool.false_ne_true, if_pos rfl,
      skipBlanks_blank_cons hblank' (by decide)]
    rfl

variable {shape : Shape ι σ} {Form : ι → σ → σ → List Char → Prop}

section Members

variable [DecidableEq ι]

/-- The field that a name is looked up as. -/
def Names (shape : Shape ι σ) (seen : List ι) (name : String) : Option ι → Prop
  | some i => i ∈ shape.fields ∧ shape.name i = name ∧ i ∉ seen
  | none => ∀ i ∈ shape.fields, shape.name i ≠ name

/-- A key that is taken spells a name that is looked up, and only the blanks before the colon stand
behind it. -/
theorem takeKey_sound {field : Option ι} (h : takeKey shape seen cs = .ok (field, rest)) :
    ∃ inner name before, Spells inner name.toList ∧ Blank before ∧ Names shape seen name field ∧
      cs = inner ++ '"' :: (before ++ ':' :: rest) := by
  unfold takeKey at h
  split at h
  · cases h
  · next read rest' htext =>
    obtain ⟨inner, read, hinner, rfl, rfl⟩ := takeText_iff.1 htext
    have hspells : Spells inner (String.ofList read).toList := by
      rw [String.toList_ofList]
      exact hinner
    refine ⟨inner, String.ofList read, ?_⟩
    dsimp only at h
    split at h
    · next i hfind =>
      split at h
      · cases h
      · next hseen =>
        obtain ⟨rest'', hcolon, heq⟩ := map_eq_ok h
        cases heq
        obtain ⟨before, hbefore, rfl⟩ := expectColon_iff.1 hcolon
        refine ⟨before, hspells, hbefore, ⟨List.mem_of_find?_eq_some hfind, ?_, hseen⟩, rfl⟩
        exact beq_iff_eq.1 (List.find?_some (p := fun i => shape.name i == _) hfind)
    · next hfind =>
      obtain ⟨rest'', hcolon, heq⟩ := map_eq_ok h
      cases heq
      obtain ⟨before, hbefore, rfl⟩ := expectColon_iff.1 hcolon
      refine ⟨before, hspells, hbefore, fun i hi hname => ?_, rfl⟩
      exact List.find?_eq_none.1 hfind i hi (beq_iff_eq.2 hname)

/-- However a name is spelled, it is looked up as the field of that name. -/
theorem takeKey_complete (hshape : shape.Recognizes Form) {field : Option ι} {inner before : List Char}
    {name : String} (hinner : Spells inner name.toList) (hbefore : Blank before)
    (hfield : Names shape seen name field) (rest : List Char) :
    takeKey shape seen (inner ++ '"' :: (before ++ ':' :: rest)) = .ok (field, rest) := by
  have htext : takeText [] (inner ++ '"' :: (before ++ ':' :: rest))
      = .ok (name.toList, before ++ ':' :: rest) := takeText_iff.2 ⟨inner, _, hinner, rfl, rfl⟩
  have hcolon : expectColon (before ++ ':' :: rest) = .ok rest :=
    expectColon_iff.2 ⟨before, hbefore, rfl⟩
  have hfind : (shape.fields.find? fun i => shape.name i == name) = field := by
    cases field with
    | none => exact List.find?_eq_none.2 fun i hi h => hfield i hi (beq_iff_eq.1 h)
    | some i =>
      obtain ⟨hi, hname, -⟩ := hfield
      cases hfound : shape.fields.find? fun i => shape.name i == name with
      | none => exact absurd (beq_iff_eq.2 hname) (List.find?_eq_none.1 hfound i hi)
      | some j =>
        -- the first field of this name is the only one
        have hj : shape.name j = name :=
          beq_iff_eq.1 (List.find?_some (p := fun i => shape.name i == name) hfound)
        rw [hshape.name_inj (List.mem_of_find?_eq_some hfound) hi (hj.trans hname.symm)]
  rw [takeKey, htext]
  dsimp only
  rw [String.ofList_toList, hfind]
  cases field with
  | none => exact map_ok hcolon
  | some i =>
    dsimp only
    rw [if_neg hfield.2.2]
    exact map_ok hcolon

/-- **Every object that is read has members that make the record**, in the order they come in. -/
theorem runMembers_sound (hshape : shape.Recognizes Form) {isFirst : Bool}
    (h : runMembers shape isFirst seen s cs = .ok (s', rest)) :
    ∃ members forms inner, List.Forall₂ (MemberOf TextSpelled) members forms ∧
      Filled .object isFirst forms inner ∧ ReadsMembers shape Form seen s members s' ∧
      cs = inner ++ rest := by
  fun_induction runMembers shape isFirst seen s cs with
  | case1 => cases h
  | case2 isFirst seen s cs rest' hgoes =>
    obtain ⟨rfl, rfl⟩ := Prod.mk.inj (Except.ok.inj h)
    obtain ⟨blank, hblank, rfl⟩ := objectGoesOn_false hgoes
    exact ⟨[], [], _, .nil, .closing hblank, .done, by simp⟩
  | case3 => cases h
  | case4 => cases h
  | case5 isFirst seen s cs rest₁ hgoes i rest₂ hkey s₁ rest₃ hrun ih =>
    -- a field that was not given before
    obtain ⟨between, hbetween, rfl⟩ := objectGoesOn_true hgoes
    obtain ⟨inner, name, before, hinner, hbefore, ⟨hi, rfl, hseen⟩, rfl⟩ := takeKey_sound hkey
    obtain ⟨after, form, hafter, hform, rfl⟩ := (hshape.field i s).sound hrun
    obtain ⟨members, forms, tail, hforms, hfilled, hreads, rfl⟩ := ih h
    exact ⟨_ :: members, _ :: forms, _,
      .cons ⟨_, ⟨inner, hinner, rfl⟩, before, after, hbefore, hafter, rfl⟩ hforms,
      .item hbetween hfilled, .known hi hseen hform hreads, by simp⟩
  | case6 => cases h
  | case7 isFirst seen s cs rest₁ hgoes rest₂ hkey rest₃ hskip ih =>
    -- a name that is no field's: its value is stepped over
    obtain ⟨between, hbetween, rfl⟩ := objectGoesOn_true hgoes
    obtain ⟨inner, name, before, hinner, hbefore, hname, rfl⟩ := takeKey_sound hkey
    obtain ⟨after, form, hafter, hform, rfl⟩ := skipValue_sound hskip
    obtain ⟨members, forms, tail, hforms, hfilled, hreads, rfl⟩ := ih h
    exact ⟨(name, form) :: members, _ :: forms, _,
      .cons ⟨_, ⟨inner, hinner, rfl⟩, before, after, hbefore, hafter, rfl⟩ hforms,
      .item hbetween hfilled, .unknown hname hform hreads, by simp⟩

theorem runMembers_of_closing {isFirst : Bool} (h : objectGoesOn isFirst cs = .ok (false, rest)) :
    runMembers shape isFirst seen s cs = .ok (s, rest) := by
  rw [runMembers]
  split
  · next hfault => cases h.symm.trans hfault
  · next hok =>
    cases h.symm.trans hok
    rfl
  · next hok => cases h.symm.trans hok

theorem runMembers_of_known {isFirst : Bool} {i : ι} {cs₁ cs₂ : List Char}
    (h : objectGoesOn isFirst cs = .ok (true, cs₁)) (hkey : takeKey shape seen cs₁ = .ok (some i, cs₂))
    (hrun : (shape.read i s).run cs₂ = .ok (s', rest)) :
    runMembers shape isFirst seen s cs = runMembers shape false (i :: seen) s' rest := by
  rw [runMembers]
  split
  · next hfault => cases h.symm.trans hfault
  · next hok => cases h.symm.trans hok
  · next hok =>
    cases h.symm.trans hok
    split
    · next hfault => cases hkey.symm.trans hfault
    · next hok' =>
      cases hkey.symm.trans hok'
      split
      · next hfault => cases hrun.symm.trans hfault
      · next hok'' =>
        cases hrun.symm.trans hok''
        rfl
    · next hok' => cases hkey.symm.trans hok'

theorem runMembers_of_unknown {isFirst : Bool} {cs₁ cs₂ : List Char}
    (h : objectGoesOn isFirst cs = .ok (true, cs₁)) (hkey : takeKey shape seen cs₁ = .ok (none, cs₂))
    (hskip : skipValue cs₂ = .ok rest) :
    runMembers shape isFirst seen s cs = runMembers shape false seen s rest := by
  rw [runMembers]
  split
  · next hfault => cases h.symm.trans hfault
  · next hok => cases h.symm.trans hok
  · next hok =>
    cases h.symm.trans hok
    split
    · next hfault => cases hkey.symm.trans hfault
    · next hok' => cases hkey.symm.trans hok'
    · next hok' =>
      cases hkey.symm.trans hok'
      split
      · next hfault => cases hskip.symm.trans hfault
      · next hok'' =>
        cases hskip.symm.trans hok''
        rfl

/-- What is wrong with a key is wrong with the object. -/
theorem runMembers_of_fault {isFirst : Bool} {fault : Fault} {cs' : List Char}
    (h : objectGoesOn isFirst cs = .ok (true, cs')) (hkey : takeKey shape seen cs' = .error fault) :
    runMembers shape isFirst seen s cs = .error fault := by
  rw [runMembers]
  split
  · next hfault => cases h.symm.trans hfault
  · next hok => cases h.symm.trans hok
  · next hok =>
    cases h.symm.trans hok
    split
    · next hfault =>
      cases hkey.symm.trans hfault
      rfl
    · next hok' => cases hkey.symm.trans hok'
    · next hok' => cases hkey.symm.trans hok'

/-- A member as it is read: its key up to the quote behind it, the colon, and the value with what
comes after it. -/
theorem append_member (between inner before after value tail rest : List Char) :
    between ++ ('"' :: inner ++ ['"'] ++ before ++ ':' :: (after ++ value)) ++ tail ++ rest
      = between ++ '"' :: (inner ++ '"' :: (before ++ ':' ::
          (after ++ value ++ (tail ++ rest)))) := by
  simp

/-- **All members that make a record are read**, whatever blanks there are and however names are
spelled. -/
theorem runMembers_complete (hshape : shape.Recognizes Form) {isFirst : Bool}
    {members : List (String × List Char)} {forms : List (List Char)} {inner : List Char}
    (hreads : ReadsMembers shape Form seen s members s')
    (hforms : List.Forall₂ (MemberOf TextSpelled) members forms) (h : Filled .object isFirst forms inner)
    (rest : List Char) : runMembers shape isFirst seen s (inner ++ rest) = .ok (s', rest) := by
  induction hreads generalizing isFirst forms inner with
  | done =>
    cases hforms
    cases h with
    | closing hblank => exact runMembers_of_closing (objectGoesOn_closing hblank isFirst rest)
  | @known seen s s₁ s' i value members hi hseen hvalue _ ih =>
    -- what follows a value does not go on with it, so the field's reader takes just this
    cases hforms with
    | cons hmember hforms =>
      obtain ⟨key, ⟨inner, hinner, rfl⟩, before, after, hbefore, hafter, rfl⟩ := hmember
      cases h with
      | @item _ between _ tail _ hbetween hfilled =>
        have hnames : Names shape seen (shape.name i) (some i) := ⟨hi, rfl, hseen⟩
        rw [append_member, runMembers_of_known (objectGoesOn_item hbetween _)
          (takeKey_complete hshape hinner hbefore hnames _)
          ((hshape.field i s).complete hafter hvalue (hfilled.ended rest))]
        exact ih hforms hfilled
  | @unknown seen s s' name value members hname hvalue _ ih =>
    cases hforms with
    | cons hmember hforms =>
      obtain ⟨key, ⟨inner, hinner, rfl⟩, before, after, hbefore, hafter, rfl⟩ := hmember
      cases h with
      | @item _ between _ tail _ hbetween hfilled =>
        have hnames : Names shape seen name none := hname
        rw [append_member, runMembers_of_unknown (objectGoesOn_item hbetween _)
          (takeKey_complete hshape hinner hbefore hnames _)
          (skipValue_complete hvalue hafter (hfilled.ended rest))]
        exact ih hforms hfilled

end Members

/-! ## Items -/

/-- After its last field a list has nothing but blanks and its bracket. -/
theorem endList_sound (h : endList cs = .ok rest) :
    ∃ blank, Blank blank ∧ cs = blank ++ Bracket.list.closing :: rest := by
  unfold endList at h
  split at h
  · cases h
  · next c cs' hskip =>
    split at h
    · next hc =>
      cases h
      rw [hc] at hskip
      exact eq_of_skipBlanks hskip
    · split at h
      · split at h
        · split at h <;> cases h
        · cases h
      · cases h

theorem endList_closing (hblank : Blank blank) (rest : List Char) :
    endList (blank ++ [Bracket.list.closing] ++ rest) = .ok rest := by
  rw [List.append_assoc, List.singleton_append, endList,
    skipBlanks_blank_cons hblank (closing_not_blank .list)]
  rfl

/-- A list that is read has items that make the record, one for each field until it is over. -/
theorem runTuple_sound (hshape : shape.Recognizes Form) {isFirst : Bool}
    (h : runTuple shape isFirst fields s cs = .ok (s', rest)) :
    ∃ forms inner, Filled .list isFirst forms inner ∧ ReadsItems Form fields s forms s' ∧
      cs = inner ++ rest := by
  induction fields generalizing isFirst s cs with
  | nil =>
    obtain ⟨rest', hend, heq⟩ := map_eq_ok h
    cases heq
    obtain ⟨blank, hblank, rfl⟩ := endList_sound hend
    exact ⟨[], _, .closing hblank, .done, by simp⟩
  | cons i fields ih =>
    rw [runTuple] at h
    split at h
    · cases h
    · next rest' hgoes =>
      obtain ⟨rfl, rfl⟩ := Prod.mk.inj (Except.ok.inj h)
      obtain ⟨blank, hblank, rfl⟩ := listGoesOn_false hgoes
      exact ⟨[], _, .closing hblank, .done, by simp⟩
    · next rest' hgoes =>
      split at h
      · cases h
      · next s₁ rest₁ hrun =>
        obtain ⟨between, hbetween, rfl⟩ := listGoesOn_true hgoes
        obtain ⟨blank, form, hblank, hform, rfl⟩ := (hshape.field i s).sound hrun
        obtain ⟨forms, inner, hfilled, hreads, rfl⟩ := ih h
        exact ⟨form :: forms, _, .item (between_append hbetween hblank) hfilled,
          .next hform hreads, by simp⟩

/-- Items that make a record are read, also if there are fewer of them than fields. -/
theorem runTuple_complete (hshape : shape.Recognizes Form) {isFirst : Bool}
    {forms : List (List Char)} {inner : List Char} (hreads : ReadsItems Form fields s forms s')
    (h : Filled .list isFirst forms inner) (rest : List Char) :
    runTuple shape isFirst fields s (inner ++ rest) = .ok (s', rest) := by
  induction hreads generalizing isFirst inner with
  | @done fields s =>
    -- it is over, or there are no fields left
    cases h with
    | closing hblank =>
      cases fields with
      | nil => exact map_ok (endList_closing hblank rest)
      | cons i fields => rw [runTuple, listGoesOn_closing hblank]
  | @next fields s s₁ s' i form forms hform _ ih =>
    cases h with
    | @item _ between _ inner _ hbetween hfilled =>
      obtain ⟨c, cs, hc, hstart⟩ := (hshape.field i s).starts hform
      -- blanks before an item are left to its reader, and here there are none
      have hgoes : listGoesOn isFirst (between ++ form ++ inner ++ rest)
          = .ok (true, [] ++ form ++ (inner ++ rest)) := by
        rw [hc, List.append_assoc, List.append_assoc]
        exact listGoesOn_item hbetween hstart _
      rw [runTuple, hgoes]
      dsimp only
      rw [(hshape.field i s).complete blank_nil hform (hfilled.ended rest)]
      exact ih hfilled

/-! ## Records and whole texts -/

/-- The forms of a record: an object, or a list. -/
def RecordOf (shape : Shape ι σ) (Form : ι → σ → σ → List Char → Prop) (start : σ)
    (finish : Bool → σ → Except Fault α) (a : α) (form : List Char) : Prop :=
  (∃ members s, ObjectOf TextSpelled members form ∧ ReadsMembers shape Form [] start members s ∧
      finish true s = .ok a) ∨
    ∃ items s, Enclosed .list items form ∧ ReadsItems Form shape.fields start items s ∧
      finish false s = .ok a

/-- **A record is read from an object or from a list**, if the values of its fields are. -/
theorem recognizes_record [DecidableEq ι] (hshape : shape.Recognizes Form) (start : σ)
    (finish : Bool → σ → Except Fault α) :
    (record shape start finish).Recognizes (RecordOf shape Form start finish) where
  sound {cs rest a} h := by
    change runRecord shape start finish cs = .ok (a, rest) at h
    unfold runRecord at h
    split at h
    · cases h
    · next c cs' hskip =>
      obtain ⟨blank, hblank, rfl⟩ := eq_of_skipBlanks hskip
      split at h
      · next hc =>
        split at h
        · cases h
        · next s rest' hrun =>
          obtain ⟨a', hfinish, heq⟩ := map_eq_ok h
          cases heq
          obtain ⟨members, forms, inner, hforms, hfilled, hreads, rfl⟩ := runMembers_sound hshape hrun
          refine ⟨blank, Bracket.object.opening :: inner, hblank, ?_, by simp [hc]; rfl⟩
          exact .inl ⟨members, s, ⟨forms, hforms, inner, hfilled, rfl⟩, hreads, hfinish⟩
      · split at h
        · next hc =>
          split at h
          · cases h
          · next s rest' hrun =>
            obtain ⟨a', hfinish, heq⟩ := map_eq_ok h
            cases heq
            obtain ⟨forms, inner, hfilled, hreads, rfl⟩ := runTuple_sound hshape hrun
            refine ⟨blank, Bracket.list.opening :: inner, hblank, ?_, by simp [hc]; rfl⟩
            exact .inr ⟨forms, s, ⟨inner, hfilled, rfl⟩, hreads, hfinish⟩
        · cases h
  complete {blank form rest a} hblank h _ := by
    show runRecord shape start finish _ = _
    rcases h with ⟨members, s, ⟨forms, hforms, inner, hfilled, rfl⟩, hreads, hfinish⟩ |
      ⟨forms, s, ⟨inner, hfilled, rfl⟩, hreads, hfinish⟩
    · rw [List.append_assoc, List.cons_append, runRecord,
        skipBlanks_blank_cons hblank (opening_not_blank .object)]
      dsimp only [Bracket.opening]
      rw [if_pos rfl, runMembers_complete hshape hreads hforms hfilled rest]
      exact map_ok hfinish
    · rw [List.append_assoc, List.cons_append, runRecord,
        skipBlanks_blank_cons hblank (opening_not_blank .list)]
      dsimp only [Bracket.opening]
      rw [if_neg (by decide), if_pos rfl, runTuple_complete hshape hreads hfilled rest]
      exact map_ok hfinish
  starts {form a} h := by
    rcases h with ⟨members, s, ⟨forms, -, inner, -, rfl⟩, -⟩ | ⟨forms, s, ⟨inner, -, rfl⟩, -⟩
    · exact ⟨_, inner, rfl, isStart_opening .object⟩
    · exact ⟨_, inner, rfl, isStart_opening .list⟩

/-- **A whole text is read just when it is one value of the form that the reader recognizes, with
blanks around it.** -/
theorem parse_iff {reader : Reader α} {Form : α → List Char → Prop}
    (h : reader.Recognizes Form) {a : α} : reader.parse cs = .ok a ↔ Alone (Form a) cs := by
  constructor
  · intro hparse
    rw [Reader.parse] at hparse
    split at hparse
    · cases hparse
    · next a' rest hrun =>
      split at hparse
      · next hempty =>
        obtain rfl := Except.ok.inj hparse
        obtain ⟨before, form, hbefore, hform, rfl⟩ := h.sound hrun
        obtain ⟨after, hafter, hrest⟩ := exists_blank_append_skipBlanks rest
        rw [List.isEmpty_iff.1 hempty, List.append_nil] at hrest
        exact ⟨before, form, after, hbefore, hafter, hform, by rw [hrest]⟩
      · cases hparse
  · rintro ⟨before, form, after, hbefore, hafter, hform, rfl⟩
    -- behind the value there is nothing but blanks
    have hskip : skipBlanks after = [] := by
      have hskip := skipBlanks_append hafter []
      rw [List.append_nil] at hskip
      exact hskip
    rw [Reader.parse, h.complete hbefore hform (ended_of_blank hafter)]
    dsimp only
    rw [hskip]
    rfl

end Switchboard.Json
