/-!
# Finite maps

A table holds at most one value for each key. It is looked at through `get?`: one equation for each
operation says what it does to every key. `size` counts the keys.
-/

namespace Switchboard

/-- A finite map from `κ` to `α`. -/
structure Table (κ α : Type) where
  entries : List (κ × α)
  nodup : (entries.map Prod.fst).Nodup := by simp

namespace Table

variable {κ α β : Type} [DecidableEq κ]

/-- The table without keys. -/
def empty : Table κ α where
  entries := []

instance : Inhabited (Table κ α) := ⟨empty⟩

/-- The value of the first entry with a key. -/
def find? (k : κ) : List (κ × α) → Option α
  | [] => none
  | (k', a) :: entries => if k' = k then some a else find? k entries

/-- The value a key has. -/
def get? (t : Table κ α) (k : κ) : Option α := find? k t.entries

def contains (t : Table κ α) (k : κ) : Bool := (t.get? k).isSome

/-- The number of keys. -/
def size (t : Table κ α) : Nat := t.entries.length

def keys (t : Table κ α) : List κ := t.entries.map Prod.fst

def values (t : Table κ α) : List α := t.entries.map Prod.snd

/-- The entries of a list but those with a given key. -/
def dropKey (k : κ) (entries : List (κ × α)) : List (κ × α) :=
  entries.filter fun e => decide (e.1 ≠ k)

theorem mem_keys_dropKey {k k' : κ} {entries : List (κ × α)} :
    k' ∈ (dropKey k entries).map Prod.fst ↔ k' ∈ entries.map Prod.fst ∧ k' ≠ k := by
  simp only [dropKey, List.mem_map, List.mem_filter, decide_eq_true_eq]
  constructor
  · rintro ⟨e, ⟨he, hne⟩, rfl⟩
    exact ⟨⟨e, he, rfl⟩, hne⟩
  · rintro ⟨⟨e, he, rfl⟩, hne⟩
    exact ⟨e, ⟨he, hne⟩, rfl⟩

theorem nodup_dropKey {k : κ} {entries : List (κ × α)} (h : (entries.map Prod.fst).Nodup) :
    ((dropKey k entries).map Prod.fst).Nodup :=
  h.sublist (List.Sublist.map _ List.filter_sublist)

/-- The table without a key. -/
def erase (t : Table κ α) (k : κ) : Table κ α where
  entries := dropKey k t.entries
  nodup := nodup_dropKey t.nodup

/-- The table with a value for a key, whatever value the key had before. -/
def insert (t : Table κ α) (k : κ) (a : α) : Table κ α where
  entries := dropKey k t.entries ++ [(k, a)]
  nodup := by
    rw [List.map_append, List.nodup_append]
    refine ⟨nodup_dropKey t.nodup, by simp, ?_⟩
    intro x hx y hy
    have hne := (mem_keys_dropKey.1 hx).2
    simp only [List.map_cons, List.map_nil, List.mem_singleton] at hy
    exact fun h => hne (h.trans hy)

/-- The table with every value put into another form. -/
def mapValues (t : Table κ α) (f : α → β) : Table κ β where
  entries := t.entries.map fun (k, a) => (k, f a)
  nodup := by
    have h : (t.entries.map fun e => (e.1, f e.2)).map Prod.fst = t.entries.map Prod.fst := by
      simp [List.map_map, Function.comp_def]
    rw [h]
    exact t.nodup

/-- The table of the entries that a test keeps. -/
def filter (t : Table κ α) (p : κ → α → Bool) : Table κ α where
  entries := t.entries.filter fun e => p e.1 e.2
  nodup := t.nodup.sublist (List.Sublist.map _ List.filter_sublist)

/-! ## Every operation through `get?` -/

theorem find?_dropKey (k k' : κ) (entries : List (κ × α)) :
    find? k' (dropKey k entries) = if k' = k then none else find? k' entries := by
  induction entries with
  | nil => simp [dropKey, find?]
  | cons e entries ih =>
    obtain ⟨k₀, a⟩ := e
    rw [dropKey, List.filter_cons, ← dropKey]
    by_cases h : k₀ = k
    · subst h
      simp only [ne_eq, not_true_eq_false, decide_false, Bool.false_eq_true, ↓reduceIte, ih, find?]
      by_cases h' : k' = k₀
      · simp [h']
      · simp [h', Ne.symm h']
    · simp only [ne_eq, h, not_false_eq_true, decide_true, ↓reduceIte, find?, ih]
      by_cases h' : k₀ = k'
      · subst h'; simp [h]
      · simp [h']

theorem find?_append (k : κ) (l₁ l₂ : List (κ × α)) :
    find? k (l₁ ++ l₂) = (find? k l₁).or (find? k l₂) := by
  induction l₁ with
  | nil => rfl
  | cons e l₁ ih =>
    obtain ⟨k₀, a⟩ := e
    by_cases h : k₀ = k
    · simp [find?, h]
    · simp [find?, h, ih]

@[simp] theorem get?_empty (k : κ) : (empty : Table κ α).get? k = none := rfl

@[simp] theorem get?_erase (t : Table κ α) (k k' : κ) :
    (t.erase k).get? k' = if k' = k then none else t.get? k' :=
  find?_dropKey k k' t.entries

@[simp] theorem get?_insert (t : Table κ α) (k k' : κ) (a : α) :
    (t.insert k a).get? k' = if k' = k then some a else t.get? k' := by
  simp only [get?, insert, find?_append, find?_dropKey, find?]
  by_cases h : k' = k
  · simp [h]
  · simp [h, Ne.symm h]

theorem find?_isSome_iff {k : κ} {entries : List (κ × α)} :
    (find? k entries).isSome ↔ k ∈ entries.map Prod.fst := by
  induction entries with
  | nil => simp [find?]
  | cons e entries ih =>
    obtain ⟨k₀, a⟩ := e
    by_cases h : k₀ = k
    · simp [find?, h]
    · simp [find?, h, ih, Ne.symm h]

/-- A key is listed if it has a value. -/
theorem mem_keys_iff {t : Table κ α} {k : κ} : k ∈ t.keys ↔ (t.get? k).isSome :=
  find?_isSome_iff.symm

omit [DecidableEq κ] in
/-- No key is listed twice. -/
theorem keys_nodup (t : Table κ α) : t.keys.Nodup := t.nodup

end Table

end Switchboard
