import Switchboard.Envelope.TextFrame
import Switchboard.Exchange.Session
import Switchboard.Proofs.Envelope.Canonical
import Switchboard.Proofs.Json.Records

/-!
# Which texts are envelopes

`ofTextFrame_iff`: a text frame is read as an envelope just when it is one JSON value that spells the
envelope, either an object that names fields or a list of the first fields in order. A field that is
not given has its default. So an integer is never rounded, cut or wrapped, the order of the members
and members for something else do not matter, and a reader does the same with a text frame as with the
binary form of the envelope that it stands for.
-/

namespace Switchboard.Envelope

open Json

variable {e e' : Envelope} {form : List Char}

/-! ## How an envelope may be spelled -/

/-- Members of an object that stand for an envelope: no field is named twice, a field that is named
has the value that is given, and another one its default. What has another name may be anything. -/
structure GivenByName (e : Envelope) (members : List (String × List Char)) : Prop where
  once (f : Field) : (members.map Prod.fst).count f.name ≤ 1
  given (f : Field) {form : List Char} (h : (f.name, form) ∈ members) : (f.value e).Spelled form
  unknown {name : String} {form : List Char} (h : (name, form) ∈ members)
    (hname : ∀ f : Field, f.name ≠ name) : WellFormed form
  missing (f : Field) (h : f.name ∉ members.map Prod.fst) : f.value e = f.value {}

/-- Items of a list that stand for an envelope: the values of its first fields. The others have their
defaults. -/
structure GivenInOrder (e : Envelope) (items : List (List Char)) : Prop where
  short : items.length ≤ Field.all.length
  given {f : Field} {form : List Char} (h : (f, form) ∈ Field.all.zip items) :
    (f.value e).Spelled form
  missing {f : Field} (h : f ∉ Field.all.take items.length) : f.value e = f.value {}

/-- The forms of an envelope. -/
def Spelled (e : Envelope) (form : List Char) : Prop :=
  (∃ members, ObjectOf TextSpelled members form ∧ e.GivenByName members) ∨
    ∃ items, Enclosed .list items form ∧ e.GivenInOrder items

/-! ## Values of fields -/

theorem spelled_text_iff {s : String} : (Value.text s).Spelled form ↔ TextSpelled s form :=
  ⟨fun h => by cases h; assumption, .text⟩

theorem spelled_integer_iff {n : Int} : (Value.integer n).Spelled form ↔ form = (toString n).toList :=
  ⟨fun h => by cases h; rfl, fun h => h ▸ .integer n⟩

theorem spelled_flag_iff {b : Bool} : (Value.flag b).Spelled form ↔ form = (toString b).toList :=
  ⟨fun h => by cases h; rfl, fun h => h ▸ .flag b⟩

theorem spelled_list_iff {items : List Value} :
    (Value.list items).Spelled form ↔ ListOf Value.Spelled items form := by
  constructor
  · intro h
    cases h with
    | @list _ forms _ hlength hitems h =>
      exact ⟨forms, List.forall₂_iff_zip.2 ⟨hlength, fun {a b} hab => hitems (a, b) hab⟩, h⟩
  · rintro ⟨forms, hforms, h⟩
    obtain ⟨hlength, hitems⟩ := List.forall₂_iff_zip.1 hforms
    exact .list hlength (fun p hp => hitems hp) h

/-- Numbers of a type that has all the integers of a range are read as they are written. -/
theorem recognizes_number {α : Type} {low high : Int} (hlow : -(2 ^ 63) ≤ low) (hhigh : high < 2 ^ 64)
    (expected : String) (ofInt : Int → α) (toInt : α → Int)
    (hrange : ∀ a, low ≤ toInt a ∧ toInt a ≤ high) (hof : ∀ a, ofInt (toInt a) = a)
    (hto : ∀ n, low ≤ n ∧ n ≤ high → toInt (ofInt n) = n) :
    ((Json.integer low high expected).map ofInt).Recognizes fun a form =>
      (Value.integer (toInt a)).Spelled form := by
  refine ((recognizes_integer hlow hhigh expected).map ofInt).congr fun a form => ?_
  rw [spelled_integer_iff]
  constructor
  · -- an integer of the range is one of the type, so putting it in and out again loses nothing
    rintro ⟨n, rfl, hn, rfl⟩
    rw [hto n hn]
  · rintro rfl
    exact ⟨toInt a, (hof a).symm, hrange a, rfl⟩

theorem recognizes_int32 : int32.Recognizes fun v form => (Value.integer v.toInt).Spelled form :=
  recognizes_number (by decide) (by decide) "i32" Int32.ofInt Int32.toInt
    (fun v => ⟨v.minValue_le_toInt, v.toInt_le⟩) (fun v => v.ofInt_toInt)
    fun n hn => Int32.toInt_ofInt_of_le hn.1 (Int.lt_add_one_of_le hn.2)

theorem recognizes_int64 : int64.Recognizes fun v form => (Value.integer v.toInt).Spelled form :=
  recognizes_number (by decide) (by decide) "i64" Int64.ofInt Int64.toInt
    (fun v => ⟨v.minValue_le_toInt, v.toInt_le⟩) (fun v => v.ofInt_toInt)
    fun n hn => Int64.toInt_ofInt_of_le hn.1 (Int.lt_add_one_of_le hn.2)

theorem recognizes_uint32 : uint32.Recognizes fun v form => (Value.count v.toNat).Spelled form := by
  refine recognizes_number (by decide) (by decide) "u32" _ (fun v : UInt32 => (v.toNat : Int))
    (fun v => ?_) (fun v => ?_) fun n hn => ?_
  · have := v.toNat_lt
    simp only [UInt32.size]
    omega
  · simp
  · simp only [UInt32.size] at hn
    have hlt : n.toNat < 2 ^ 32 := by omega
    rw [UInt32.toNat_ofNat_of_lt' hlt]
    omega

/-- A payload is spelled as the list of its octets. -/
theorem recognizes_octetList :
    octetList.Recognizes fun bytes form =>
      (Value.list (bytes.map fun b => .count b.toNat)).Spelled form := by
  have hoctet : ((Json.integer 0 255 "u8").map fun n => UInt8.ofNat n.toNat).Recognizes
      fun v form => (Value.count v.toNat).Spelled form := by
    refine recognizes_number (by decide) (by decide) "u8" _ (fun v : UInt8 => (v.toNat : Int))
      (fun v => ?_) (fun v => ?_) fun n hn => ?_
    · have := v.toNat_lt
      omega
    · simp
    · have hlt : n.toNat < 2 ^ 8 := by omega
      rw [UInt8.toNat_ofNat_of_lt' hlt]
      omega
  refine (recognizes_list hoctet).congr fun bytes form => ?_
  rw [spelled_list_iff]
  constructor
  · rintro ⟨forms, hforms, h⟩
    exact ⟨forms, List.forall₂_map_left_iff.2 hforms, h⟩
  · rintro ⟨forms, hforms, h⟩
    exact ⟨forms, List.forall₂_map_left_iff.1 hforms, h⟩

/-- An envelope is what its fields are. -/
theorem ext_value (h : ∀ f : Field, f.value e = f.value e') : e = e' := by
  have hoctets : Function.Injective fun b : UInt8 => Value.count b.toNat := fun a b hab =>
    UInt8.toNat_inj.1 (Int.ofNat.inj (Value.integer.inj hab))
  cases e
  cases e'
  rw [mk.injEq]
  exact ⟨Value.text.inj (h .sender), Value.text.inj (h .recipient), Value.text.inj (h .tag),
    Value.text.inj (h .content), Int32.toInt_inj.1 (Value.integer.inj (h .contentType)),
    Int32.toInt_inj.1 (Value.integer.inj (h .messageType)), Value.text.inj (h .messageId),
    Value.flag.inj (h .isFragment),
    UInt32.toNat_inj.1 (Int.ofNat.inj (Value.integer.inj (h .fragmentIndex))),
    UInt32.toNat_inj.1 (Int.ofNat.inj (Value.integer.inj (h .fragmentTotal))),
    Int64.toInt_inj.1 (Value.integer.inj (h .timestamp)), Value.text.inj (h .checksum),
    List.map_injective_iff.2 hoctets (Value.list.inj (h .payload))⟩

/-- Reading a field of an envelope from a form changes that field only. -/
def Written (f : Field) (e e' : Envelope) (form : List Char) : Prop :=
  (f.value e').Spelled form ∧ ∀ g ≠ f, g.value e' = g.value e

/-- A reader whose value is put into a field reads the field. -/
theorem recognizes_put {α : Type} {reader : Json.Reader α} {toValue : α → Value} (f : Field)
    (h : reader.Recognizes fun a form => (toValue a).Spelled form) (put : α → Envelope)
    (get : Envelope → α) (hput : ∀ a, f.value (put a) = toValue a)
    (hget : ∀ e', f.value e' = toValue (get e')) (hother : ∀ a, ∀ g ≠ f, g.value (put a) = g.value e) :
    (reader.map put).Recognizes (Written f e) := by
  refine (h.map put).congr fun e' form => ?_
  constructor
  · rintro ⟨a, rfl, hform⟩
    exact ⟨hput a ▸ hform, hother a⟩
  · rintro ⟨hform, hothers⟩
    refine ⟨get e', ext_value fun g => ?_, hget e' ▸ hform⟩
    by_cases hg : g = f
    · rw [hg, hput, hget]
    · rw [hothers g hg, hother _ g hg]

/-- Every field is read as its type asks, and reading it touches no other field. -/
theorem recognizes_read (f : Field) (e : Envelope) : (f.read e).Recognizes (Written f e) := by
  have htext : Json.text.Recognizes fun s form => (Value.text s).Spelled form :=
    recognizes_text.congr fun _ _ => spelled_text_iff.symm
  have hflag : Json.flag.Recognizes fun b form => (Value.flag b).Spelled form :=
    recognizes_flag.congr fun _ _ => spelled_flag_iff.symm
  -- what is left of each field is the form of its type, and that the others stay
  cases f <;> refine recognizes_put _ ?_ _ _ (fun _ => rfl) (fun _ => rfl) fun a g hg => ?_
  case sender.refine_1 | recipient.refine_1 | tag.refine_1 | content.refine_1 | messageId.refine_1
    | checksum.refine_1 => exact htext
  case contentType.refine_1 | messageType.refine_1 => exact recognizes_int32
  case fragmentIndex.refine_1 | fragmentTotal.refine_1 => exact recognizes_uint32
  case isFragment.refine_1 => exact hflag
  case timestamp.refine_1 => exact recognizes_int64
  case payload.refine_1 => exact recognizes_octetList
  -- the other fields are left as they are
  all_goals cases g <;> first | rfl | exact absurd rfl hg

/-- No two fields have one name. -/
theorem name_injective : Function.Injective Field.name := by
  intro f g h
  have hall : ∀ f ∈ Field.all, ∀ g ∈ Field.all, f.name = g.name → f = g := by decide
  exact hall f (by cases f <;> decide) g (by cases g <;> decide) h

theorem mem_all (f : Field) : f ∈ Field.all := by
  cases f <;> decide

theorem recognizes_shape : shape.Recognizes Written where
  field := recognizes_read
  name_inj _ _ h := name_injective h

/-! ## Members -/

/-- An envelope with one field taken from another one. -/
def Field.copy : Field → (source target : Envelope) → Envelope
  | sender, source, target => { target with sender := source.sender }
  | recipient, source, target => { target with recipient := source.recipient }
  | tag, source, target => { target with tag := source.tag }
  | content, source, target => { target with content := source.content }
  | contentType, source, target => { target with contentType := source.contentType }
  | messageType, source, target => { target with messageType := source.messageType }
  | messageId, source, target => { target with messageId := source.messageId }
  | isFragment, source, target => { target with isFragment := source.isFragment }
  | fragmentIndex, source, target => { target with fragmentIndex := source.fragmentIndex }
  | fragmentTotal, source, target => { target with fragmentTotal := source.fragmentTotal }
  | timestamp, source, target => { target with timestamp := source.timestamp }
  | checksum, source, target => { target with checksum := source.checksum }
  | payload, source, target => { target with payload := source.payload }

theorem value_copy (f : Field) (e s : Envelope) : f.value (f.copy e s) = f.value e := by
  cases f <;> rfl

theorem value_copy_of_ne {f g : Field} (h : g ≠ f) (e s : Envelope) :
    g.value (f.copy e s) = g.value s := by
  cases f <;> cases g <;> first | rfl | exact absurd rfl h

/-- A form that spells the field of another envelope is read by copying that field. -/
theorem written_copy {f : Field} {s : Envelope} (h : (f.value e).Spelled form) :
    Written f s (f.copy e s) form :=
  ⟨value_copy f e s ▸ h, fun _ hg => value_copy_of_ne hg e s⟩

variable {seen : List Field} {s : Envelope} {members : List (String × List Char)}

/-- Members that make an envelope of one in progress, of which some fields were seen before. -/
structure Completes (seen : List Field) (s e : Envelope) (members : List (String × List Char)) :
    Prop where
  fresh {f : Field} (h : f ∈ seen) : f.name ∉ members.map Prod.fst
  once (f : Field) : (members.map Prod.fst).count f.name ≤ 1
  given (f : Field) {form : List Char} (h : (f.name, form) ∈ members) : (f.value e).Spelled form
  unknown {name : String} {form : List Char} (h : (name, form) ∈ members)
    (hname : ∀ f : Field, f.name ≠ name) : WellFormed form
  missing (f : Field) (h : f.name ∉ members.map Prod.fst) : f.value e = f.value s

theorem givenByName_iff : e.GivenByName members ↔ Completes [] {} e members :=
  ⟨fun h => ⟨fun hf => absurd hf List.not_mem_nil, h.once, h.given, h.unknown, h.missing⟩,
    fun h => ⟨h.once, h.given, h.unknown, h.missing⟩⟩

/-- A field may come before the others if it was not seen and is not among them. -/
theorem Completes.known {f : Field} {s' : Envelope} (hseen : f ∉ seen)
    (hform : Written f s s' form) (h : Completes (f :: seen) s' e members) :
    Completes seen s e ((f.name, form) :: members) where
  fresh {g} hg hmem := by
    rcases List.mem_cons.1 hmem with hname | hmem
    · exact hseen (name_injective hname ▸ hg)
    · exact h.fresh (List.mem_cons_of_mem _ hg) hmem
  once g := by
    rw [List.map_cons, List.count_cons]
    by_cases hg : g = f
    · subst hg
      -- the field itself: it is not named again, since it counts as seen from now on
      rw [List.count_eq_zero.2 (h.fresh (List.mem_cons_self ..)), beq_self_eq_true]
      exact Nat.le_refl 1
    · rw [beq_false_of_ne fun hname => hg (name_injective hname).symm]
      exact h.once g
  given g form' hmem := by
    rcases List.mem_cons.1 hmem with heq | hmem
    · obtain ⟨hname, rfl⟩ := Prod.mk.inj heq
      obtain rfl := name_injective hname
      -- the others do not give it, so it keeps the value that was read
      rw [h.missing g (h.fresh (List.mem_cons_self ..))]
      exact hform.1
    · exact h.given g hmem
  unknown {name form'} hmem hname := by
    rcases List.mem_cons.1 hmem with heq | hmem
    · exact absurd (Prod.mk.inj heq).1.symm (hname f)
    · exact h.unknown hmem hname
  missing g hg := by
    rw [h.missing g (List.not_mem_of_not_mem_cons hg)]
    exact hform.2 g fun heq => List.ne_of_not_mem_cons hg (by rw [heq])

/-- A member for something else may come anywhere. -/
theorem Completes.other {name : String} (hname : ∀ f : Field, f.name ≠ name)
    (hform : WellFormed form) (h : Completes seen s e members) :
    Completes seen s e ((name, form) :: members) where
  fresh {f} hf hmem := (List.mem_cons.1 hmem).elim (hname f) (h.fresh hf)
  once f := by
    rw [List.map_cons, List.count_cons, beq_false_of_ne (hname f).symm]
    exact h.once f
  given f form' hmem := by
    rcases List.mem_cons.1 hmem with heq | hmem
    · exact absurd (Prod.mk.inj heq).1 (hname f)
    · exact h.given f hmem
  unknown {name' form'} hmem hname' := by
    rcases List.mem_cons.1 hmem with heq | hmem
    · exact (Prod.mk.inj heq).2 ▸ hform
    · exact h.unknown hmem hname'
  missing f hf := h.missing f (List.not_mem_of_not_mem_cons hf)

/-- What is left to complete once the value of the first field is in its place. -/
theorem Completes.of_known {f : Field} (h : Completes seen s e ((f.name, form) :: members)) :
    f ∉ seen ∧ Written f s (f.copy e s) form ∧ Completes (f :: seen) (f.copy e s) e members := by
  -- a field that is given once is not given by the others
  have honce : f.name ∉ members.map Prod.fst := by
    have hcount := h.once f
    rw [List.map_cons, List.count_cons, beq_self_eq_true, if_pos rfl] at hcount
    exact List.count_eq_zero.1 (by omega)
  refine ⟨fun hf => h.fresh hf (List.mem_cons_self ..),
    written_copy (h.given f (List.mem_cons_self ..)), ⟨?_, ?_, ?_, ?_, ?_⟩⟩
  · intro g hg hmem
    rcases List.mem_cons.1 hg with rfl | hg
    · exact honce hmem
    · exact h.fresh hg (List.mem_cons_of_mem _ hmem)
  · intro g
    have hcount := h.once g
    rw [List.map_cons, List.count_cons] at hcount
    omega
  · exact fun g form' hmem => h.given g (List.mem_cons_of_mem _ hmem)
  · exact fun {name form'} hmem hname => h.unknown (List.mem_cons_of_mem _ hmem) hname
  · intro g hg
    by_cases heq : g = f
    · rw [heq, value_copy]
    · rw [value_copy_of_ne heq]
      have hne : g.name ≠ f.name := fun hname => heq (name_injective hname)
      exact h.missing g (List.not_mem_cons_of_ne_of_not_mem hne hg)

/-- It leaves everything to complete that was there before. -/
theorem Completes.of_other {name : String} (hname : ∀ f : Field, f.name ≠ name)
    (h : Completes seen s e ((name, form) :: members)) :
    WellFormed form ∧ Completes seen s e members := by
  refine ⟨h.unknown (List.mem_cons_self ..) hname, ⟨?_, ?_, ?_, ?_, ?_⟩⟩
  · exact fun hf hmem => h.fresh hf (List.mem_cons_of_mem _ hmem)
  · intro f
    have hcount := h.once f
    rw [List.map_cons, List.count_cons] at hcount
    omega
  · exact fun f form' hmem => h.given f (List.mem_cons_of_mem _ hmem)
  · exact fun hmem hname' => h.unknown (List.mem_cons_of_mem _ hmem) hname'
  · exact fun f hf => h.missing f (List.not_mem_cons_of_ne_of_not_mem (hname f) hf)

/-- Members are read in any order just when they complete the envelope. -/
theorem readsMembers_iff :
    ReadsMembers shape Written seen s members e ↔ Completes seen s e members := by
  constructor
  · intro h
    induction h with
    | done =>
      exact ⟨fun _ => List.not_mem_nil, fun _ => Nat.zero_le _, fun _ _ h => absurd h List.not_mem_nil,
        fun h => absurd h List.not_mem_nil, fun _ _ => rfl⟩
    | known _ hseen hform _ ih => exact ih.known hseen hform
    | unknown hname hform _ ih => exact ih.other (fun f => hname f (mem_all f)) hform
  · intro h
    -- on the members: what comes first decides which of the two rules applies
    induction members generalizing seen s with
    | nil =>
      rw [ext_value fun f => h.missing f List.not_mem_nil]
      exact .done
    | cons m members ih =>
      obtain ⟨name, form⟩ := m
      by_cases hknown : ∃ f : Field, f.name = name
      · obtain ⟨f, rfl⟩ := hknown
        obtain ⟨hseen, hwritten, hrest⟩ := h.of_known
        exact .known (mem_all f) hseen hwritten (ih hrest)
      · have hname : ∀ f : Field, f.name ≠ name := fun f hf => hknown ⟨f, hf⟩
        obtain ⟨hform, hrest⟩ := h.of_other hname
        exact .unknown (fun f _ => hname f) hform (ih hrest)

/-! ## Items -/

variable {fields : List Field} {items : List (List Char)}

/-- Items are read as fields just when they are their values, in order. -/
theorem readsItems_iff (hfields : fields.Nodup) :
    ReadsItems Written fields s items e ↔ items.length ≤ fields.length ∧
      (∀ p ∈ fields.zip items, (p.1.value e).Spelled p.2) ∧
        ∀ f ∉ fields.take items.length, f.value e = f.value s := by
  constructor
  · intro h
    induction h with
    | done => exact ⟨Nat.zero_le _, by simp, fun _ _ => rfl⟩
    | @next fields s s' e f form items hform _ ih =>
      obtain ⟨hf, hfields⟩ := List.nodup_cons.1 hfields
      obtain ⟨hshort, hgiven, hmissing⟩ := ih hfields
      refine ⟨Nat.succ_le_succ hshort, List.forall_mem_cons.2 ⟨?_, hgiven⟩, ?_⟩
      · -- a field occurs once, so what was read for it is not written over
        rw [hmissing f fun hmem => hf (List.mem_of_mem_take hmem)]
        exact hform.1
      · intro g hg
        rw [hmissing g (List.not_mem_of_not_mem_cons hg),
          hform.2 g (List.ne_of_not_mem_cons hg)]
  · rintro ⟨hshort, hgiven, hmissing⟩
    induction items generalizing fields s with
    | nil =>
      rw [ext_value fun f => hmissing f List.not_mem_nil]
      exact .done
    | cons form items ih =>
      cases fields with
      | nil => exact absurd hshort (Nat.not_succ_le_zero _)
      | cons f fields =>
        obtain ⟨hf, hfields⟩ := List.nodup_cons.1 hfields
        obtain ⟨hform, hgiven⟩ := List.forall_mem_cons.1 hgiven
        refine .next (written_copy hform) (ih hfields (Nat.le_of_succ_le_succ hshort) hgiven ?_)
        intro g hg
        by_cases heq : g = f
        · rw [heq, value_copy]
        · rw [value_copy_of_ne heq]
          exact hmissing g (List.not_mem_cons_of_ne_of_not_mem heq hg)

/-- The items of a list are read as the first fields. -/
theorem givenInOrder_iff : e.GivenInOrder items ↔ ReadsItems Written Field.all {} items e := by
  rw [readsItems_iff (by decide)]
  exact ⟨fun h => ⟨h.short, fun p hp => h.given hp, fun f hf => h.missing hf⟩,
    fun h => ⟨h.1, fun {f form} hmem => h.2.1 (f, form) hmem, fun {f} hf => h.2.2 f hf⟩⟩

/-! ## Text frames -/

/-- An envelope is read from its forms, and from nothing else. -/
theorem recognizes_reader : reader.Recognizes Spelled := by
  refine (recognizes_record recognizes_shape {} fun _ e => .ok e).congr fun e form => ?_
  constructor
  · rintro (⟨members, s, hobject, hreads, hs⟩ | ⟨items, s, hlist, hreads, hs⟩)
    · obtain rfl := Except.ok.inj hs
      exact .inl ⟨members, hobject, givenByName_iff.2 (readsMembers_iff.1 hreads)⟩
    · obtain rfl := Except.ok.inj hs
      exact .inr ⟨items, hlist, givenInOrder_iff.2 hreads⟩
  · rintro (⟨members, hobject, hgiven⟩ | ⟨items, hlist, hgiven⟩)
    · exact .inl ⟨members, e, hobject, readsMembers_iff.2 (givenByName_iff.1 hgiven), rfl⟩
    · exact .inr ⟨items, e, hlist, givenInOrder_iff.1 hgiven, rfl⟩

theorem ofTextFrame_eq_ok_iff {text : String} :
    ofTextFrame text = .ok e ↔ Alone e.Spelled text.toList :=
  parse_iff recognizes_reader

/-- The members that have the name of a field. -/
def named (members : List (String × List Char)) : List (String × List Char) :=
  members.filter fun m => Field.all.any fun f => f.name == m.1

theorem mem_named {f : Field} : (f.name, form) ∈ named members ↔ (f.name, form) ∈ members := by
  rw [named, List.mem_filter, List.any_eq_true]
  exact ⟨And.left, fun h => ⟨h, f, mem_all f, beq_self_eq_true _⟩⟩

/-- A field is named as often among the members that have a field's name. -/
theorem count_named (f : Field) (members : List (String × List Char)) :
    ((named members).map Prod.fst).count f.name = (members.map Prod.fst).count f.name := by
  rw [List.count_eq_countP, List.count_eq_countP, List.countP_map, List.countP_map, named,
    List.countP_filter]
  refine List.countP_congr fun m _ => ?_
  rw [Bool.and_eq_true, List.any_eq_true]
  refine ⟨And.left, fun h => ⟨h, f, mem_all f, ?_⟩⟩
  exact beq_iff_eq.2 (beq_iff_eq.1 h).symm

/-- Neither the order of the members matters, nor what has no field's name. -/
theorem GivenByName.of_perm {members' : List (String × List Char)} (h : e.GivenByName members)
    (hperm : (named members').Perm (named members))
    (hunknown : ∀ name form, (name, form) ∈ members' → (∀ f : Field, f.name ≠ name) →
      WellFormed form) : e.GivenByName members' := by
  have hcount : ∀ f : Field, (members'.map Prod.fst).count f.name
      = (members.map Prod.fst).count f.name := fun f => by
    rw [← count_named f members', ← count_named f members, (hperm.map Prod.fst).count_eq]
  refine ⟨fun f => ?_, fun f form hmem => ?_, fun hmem hname => hunknown _ _ hmem hname,
    fun f hf => ?_⟩
  · rw [hcount]
    exact h.once f
  · exact h.given f (mem_named.1 (hperm.mem_iff.1 (mem_named.2 hmem)))
  · refine h.missing f (List.count_eq_zero.1 ?_)
    rw [← hcount, List.count_eq_zero.2 hf]

/-- **A text is read as an envelope just when it spells the envelope and nothing else.** So neither
the order of the members nor any for something else matter, and the frame is taken as the octets of the
envelope would be. -/
theorem ofTextFrame_iff (text : String) (e : Envelope) :
    (ofTextFrame text = .ok e ↔ Alone e.Spelled text.toList) ∧
    (∀ members members' : List (String × List Char), e.GivenByName members →
      (named members').Perm (named members) →
      (∀ name form, (name, form) ∈ members' → (∀ f : Field, f.name ≠ name) → WellFormed form) →
      Alone (ObjectOf TextSpelled members') text.toList → ofTextFrame text = .ok e) ∧
    (ofTextFrame text = .ok e → e.Fits → decode e.encode = .ok e ∧
      ∀ (x : Exchange) (session : Session),
        x.readItem session (.text text) = x.readItem session (.binary e.encode)) := by
  refine ⟨ofTextFrame_eq_ok_iff, ?_, ?_⟩
  · rintro members members' hgiven hperm hunknown ⟨before, form, after, hbefore, hafter, hobject, htext⟩
    have hspelled : e.Spelled form := .inl ⟨members', hobject, hgiven.of_perm hperm hunknown⟩
    exact ofTextFrame_eq_ok_iff.2 ⟨before, form, after, hbefore, hafter, hspelled, htext⟩
  · intro hread hfits
    have hdecode : decode e.encode = .ok e := decode_encode hfits
    refine ⟨hdecode, fun x session => ?_⟩
    rw [Exchange.readItem, Exchange.readItem, hread, hdecode]

/-- A greeting with a name that is spelled with an escape, and a member for something else. -/
def greeting : String := "\x7b\"\\u0066rom\":\"ann\", \"x\":[]\x7d"

/-- The envelope of the greeting. -/
def greeted : Envelope := { sender := "ann" }

theorem spelled_greeting : Alone greeted.Spelled greeting.toList := by
  have hunit : IsUnit ['0', '0', '6', '6'] 0x66 :=
    .digits (i := 0) (j := 0) (k := 6) (l := 6) ⟨by decide, .inl rfl⟩ ⟨by decide, .inl rfl⟩
      ⟨by decide, .inl rfl⟩ ⟨by decide, .inl rfl⟩
  have hrom : ∀ c ∈ ['r', 'o', 'm'], IsPlain c := by simp [IsPlain]
  have hann : ∀ c ∈ ['a', 'n', 'n'], IsPlain c := by simp [IsPlain]
  have hx : ∀ c ∈ ['x'], IsPlain c := by simp [IsPlain]
  have hname : TextSpelled "from" ('"' :: ['\\', 'u', '0', '0', '6', '6', 'r', 'o', 'm'] ++ ['"']) :=
    ⟨_, .cons (.unit hunit (by decide)) (spells_of_plain hrom), rfl⟩
  have hsender : TextSpelled "ann" ('"' :: ['a', 'n', 'n'] ++ ['"']) := ⟨_, spells_of_plain hann, rfl⟩
  have hother : TextSpelled "x" ('"' :: ['x'] ++ ['"']) := ⟨_, spells_of_plain hx, rfl⟩
  have hempty : Enclosed .list [] ['[', ']'] := ⟨_, .closing blank_nil, rfl⟩
  have hlist : WellFormed ['[', ']'] := .list (fun _ h => absurd h List.not_mem_nil) hempty
  have hwritten : Written .sender {} greeted ('"' :: ['a', 'n', 'n'] ++ ['"']) :=
    ⟨.text hsender, fun _ hg => value_copy_of_ne hg greeted {}⟩
  have hrest : ReadsMembers shape Written [.sender] greeted [("x", ['[', ']'])] greeted :=
    .unknown (by decide) hlist .done
  have hreads := ReadsMembers.known (mem_all .sender) List.not_mem_nil hwritten hrest
  have hmember : ∀ {name : String} {key value : List Char}, TextSpelled name key →
      MemberOf TextSpelled (name, value) (key ++ [] ++ ':' :: ([] ++ value)) := fun h =>
    ⟨_, h, [], [], blank_nil, blank_nil, rfl⟩
  have hcomma : Between false [',', ' '] := ⟨[], [' '], blank_nil, by simp [Blank], rfl⟩
  exact ⟨[], _, [], blank_nil, blank_nil, .inl ⟨_, ⟨_, .cons (hmember hname) (.cons (hmember hother)
    .nil), _, .item blank_nil (.item hcomma (.closing blank_nil)), rfl⟩,
      givenByName_iff.2 (readsMembers_iff.1 hreads)⟩, by rfl⟩

/-- The greeting is read as its envelope, and its binary form would do as well. -/
theorem ofTextFrame_greeting :
    ofTextFrame greeting = .ok greeted ∧ decode greeted.encode = .ok greeted ∧
      (Exchange.new {} .inMemory 0).readItem 0 (.text greeting)
        = (Exchange.new {} .inMemory 0).readItem 0 (.binary greeted.encode) := by
  obtain ⟨hiff, -, hbinary⟩ := ofTextFrame_iff greeting greeted
  have hread := hiff.2 spelled_greeting
  have hlength : greeted.encodedLength < 256 ^ 8 := by decide
  have hfits : greeted.Fits := fits_of_length (by rwa [length_encode])
  obtain ⟨hdecode, hsame⟩ := hbinary hread hfits
  exact ⟨hread, hdecode, hsame _ 0⟩

/-- A member for something else whose name is half of a surrogate pair. -/
def halved : String := "\x7b\"\\ud800\":null\x7d"

/-- The text is a well-formed object and its only member is for something else, but the name of the
member stands for no text. So the object is refused. -/
theorem ofTextFrame_halved :
    ∃ key value, ObjectOf (fun key form => key = form ∧ Quoted IsText form) [(key, value)] halved.toList ∧
      WellFormed value ∧ WellFormed halved.toList ∧ (∀ name, ¬ TextSpelled name key) ∧
      ∀ e, ofTextFrame halved ≠ .ok e := by
  have hunit : IsUnit ['d', '8', '0', '0'] 0xD800 :=
    .digits (i := 13) (j := 8) (k := 0) (l := 0) ⟨by decide, .inl rfl⟩ ⟨by decide, .inl rfl⟩
      ⟨by decide, .inl rfl⟩ ⟨by decide, .inl rfl⟩
  have hkey : Quoted IsText ('"' :: ['\\', 'u', 'd', '8', '0', '0'] ++ ['"']) :=
    ⟨_, .cons (.unit hunit) .nil, rfl⟩
  have hnull : WellFormed ['n', 'u', 'l', 'l'] := .word (by decide)
  have hobject : ObjectOf (fun key form => key = form ∧ Quoted IsText form)
      [('"' :: ['\\', 'u', 'd', '8', '0', '0'] ++ ['"'], ['n', 'u', 'l', 'l'])] halved.toList :=
    ⟨_, .cons ⟨_, ⟨rfl, hkey⟩, [], [], blank_nil, blank_nil, rfl⟩ .nil, _,
      .item blank_nil (.closing blank_nil), by rfl⟩
  have htext : ∀ rest, takeText [] ('\\' :: 'u' :: 'd' :: '8' :: '0' :: '0' :: '"' :: rest)
      = .error .halfPair := by
    intro rest
    rw [takeText, if_neg (by decide), if_pos rfl]
    rfl
  refine ⟨_, _, hobject, hnull, ?_, ?_, ?_⟩
  · refine .object (fun m hm => ?_) hobject
    rw [List.mem_singleton.1 hm]
    exact hnull
  · rintro name ⟨inner, hinner, heq⟩
    have hinside : ['\\', 'u', 'd', '8', '0', '0', '"'] = inner ++ ['"'] := (List.cons.inj heq).2
    have hread : takeText [] (inner ++ ['"']) = .ok (name.toList, []) :=
      takeText_iff.2 ⟨inner, _, hinner, rfl, rfl⟩
    rw [← hinside, htext] at hread
    cases hread
  · intro e hread
    have hbrace : skipBlanks halved.toList = '{' :: halved.toList.drop 1 := rfl
    have hgoes : objectGoesOn true (halved.toList.drop 1) = .ok (true, halved.toList.drop 2) := rfl
    have hname : takeKey shape [] (halved.toList.drop 2) = .error .halfPair := by
      have hhere : halved.toList.drop 2 = '\\' :: 'u' :: 'd' :: '8' :: '0' :: '0' :: '"'
          :: halved.toList.drop 9 := rfl
      rw [takeKey, hhere, htext]
    have hrun : reader.run halved.toList = .error .halfPair := by
      show runRecord shape {} (fun _ e => Except.ok e) halved.toList = .error .halfPair
      rw [runRecord, hbrace]
      dsimp only
      rw [if_pos rfl, runMembers_of_fault hgoes hname]
    rw [ofTextFrame, Reader.parse, hrun] at hread
    cases hread

end Switchboard.Envelope
