import Mathlib.Data.Finset.Card
import Mathlib.Data.Finset.Dedup
import Switchboard.Table

/-!
# Tables and the sets of their keys

A table has as many entries as there are keys with a value, and lists just the values that keys
have. A test keeps the value of a key just when it holds of it.
-/

namespace Switchboard.Table

variable {κ α : Type} [DecidableEq κ]

/-- The size of a table is the number of its keys. -/
theorem size_eq_card {t : Table κ α} {keys : Finset κ}
    (h : ∀ k, k ∈ keys ↔ (t.get? k).isSome) : t.size = keys.card := by
  have heq : keys = t.keys.toFinset := by
    ext k
    rw [h, List.mem_toFinset, mem_keys_iff]
  rw [heq, List.toFinset_card_of_nodup t.keys_nodup, Table.keys, List.length_map, size]

theorem get?_of_size_eq_zero {t : Table κ α} (h : t.size = 0) (k : κ) : t.get? k = none := by
  rw [get?, List.eq_nil_of_length_eq_zero h, find?]

theorem find?_filter {entries : List (κ × α)} (h : (entries.map Prod.fst).Nodup)
    (p : κ → α → Bool) (k : κ) :
    find? k (entries.filter fun e => p e.1 e.2) = (find? k entries).filter (p k) := by
  induction entries with
  | nil => rfl
  | cons e entries ih =>
      obtain ⟨k₀, a⟩ := e
      rw [List.map_cons, List.nodup_cons] at h
      have ih := ih h.2
      by_cases hk : k₀ = k
      · subst hk
        -- no other entry has the key, so one that is dropped leaves nothing behind
        have hnone : find? k₀ entries = none := by
          rw [← Option.not_isSome_iff_eq_none, find?_isSome_iff]
          exact h.1
        rw [hnone] at ih
        by_cases hp : p k₀ a
        · simp [find?, hp, Option.filter]
        · simp [find?, hp, Option.filter, ih]
      · by_cases hp : p k₀ a
        · simp [find?, hp, hk, ih]
        · simp [find?, hp, hk, ih]

@[simp] theorem get?_filter (t : Table κ α) (p : κ → α → Bool) (k : κ) :
    (t.filter p).get? k = (t.get? k).filter (p k) :=
  find?_filter t.nodup p k

theorem find?_eq_some_iff {entries : List (κ × α)} (h : (entries.map Prod.fst).Nodup) {k : κ}
    {a : α} : find? k entries = some a ↔ (k, a) ∈ entries := by
  induction entries with
  | nil => exact iff_of_false (Option.some_ne_none _).symm List.not_mem_nil
  | cons e entries ih =>
      obtain ⟨k₀, a₀⟩ := e
      rw [List.map_cons, List.nodup_cons] at h
      have ih := ih h.2
      by_cases hk : k₀ = k
      · subst hk
        have hother : (k₀, a) ∉ entries := fun hmem => h.1 (List.mem_map.2 ⟨(k₀, a), hmem, rfl⟩)
        simp [find?, hother, eq_comm]
      · simp [find?, hk, ih, Ne.symm hk]

/-- A value is listed if some key has it. -/
theorem mem_values_iff {t : Table κ α} {a : α} : a ∈ t.values ↔ ∃ k, t.get? k = some a := by
  rw [values, List.mem_map]
  constructor
  · intro ha
    obtain ⟨⟨k, _⟩, hmem, rfl⟩ := ha
    exact ⟨k, (find?_eq_some_iff t.nodup).2 hmem⟩
  · intro ha
    obtain ⟨k, hk⟩ := ha
    exact ⟨(k, a), (find?_eq_some_iff t.nodup).1 hk, rfl⟩

/-- What holds of the values of different keys holds of different places of the list. -/
theorem pairwise_values {t : Table κ α} {R : α → α → Prop}
    (h : ∀ k k' a a', t.get? k = some a → t.get? k' = some a' → k ≠ k' → R a a') :
    t.values.Pairwise R := by
  rw [values, List.pairwise_map]
  refine List.Pairwise.imp_of_mem ?_ (List.pairwise_map.1 t.nodup)
  intro e e' he he' hne
  exact h e.1 e'.1 e.2 e'.2 ((find?_eq_some_iff t.nodup).2 he)
    ((find?_eq_some_iff t.nodup).2 he') hne

/-- Erasing a key that has no value changes nothing. -/
theorem erase_of_get?_eq_none {t : Table κ α} {k : κ} (h : t.get? k = none) : t.erase k = t := by
  have hentries : dropKey k t.entries = t.entries := by
    refine List.filter_eq_self.2 fun e he => decide_eq_true ?_
    rintro rfl
    have hsome := find?_isSome_iff.2 (List.mem_map_of_mem he)
    rw [show find? e.1 t.entries = none from h] at hsome
    cases hsome
  obtain ⟨entries, nodup⟩ := t
  simp only [erase, hentries]

theorem dropKey_append_singleton (entries : List (κ × α)) (k : κ) (a : α) :
    dropKey k (dropKey k entries ++ [(k, a)]) = dropKey k entries := by
  rw [dropKey, List.filter_append, List.filter_cons_of_neg (by simp), List.filter_nil,
    List.append_nil, List.filter_eq_self]
  intro e he
  exact (List.mem_filter.1 he).2

/-- Only the last value that a key is given counts. -/
theorem insert_insert (t : Table κ α) (k : κ) (a b : α) :
    (t.insert k a).insert k b = t.insert k b := by
  simp only [insert, dropKey_append_singleton]

theorem erase_insert (t : Table κ α) (k : κ) (a : α) : (t.insert k a).erase k = t.erase k := by
  simp only [insert, erase, dropKey_append_singleton]

/-- The entries of a table are that of a key and those of the table without the key. -/
theorem perm_of_get? {t : Table κ α} {k : κ} {a : α} (h : t.get? k = some a) :
    t.entries.Perm ((k, a) :: (t.erase k).entries) := by
  obtain ⟨before, after, hsplit⟩ := List.append_of_mem ((find?_eq_some_iff t.nodup).1 h)
  have hnodup := t.nodup
  have hothers : (t.erase k).entries = before ++ after := by
    rw [hsplit, List.map_append, List.nodup_append] at hnodup
    obtain ⟨-, hafter, hbefore⟩ := hnodup
    show dropKey k t.entries = before ++ after
    rw [hsplit, dropKey, List.filter_append, List.filter_cons_of_neg (by simp)]
    refine congrArg₂ (· ++ ·) (List.filter_eq_self.2 ?_) (List.filter_eq_self.2 ?_)
    · exact fun e he => decide_eq_true
        (hbefore e.1 (List.mem_map_of_mem he) k (List.mem_cons_self ..))
    · exact fun e he => decide_eq_true fun heq =>
        (List.nodup_cons.1 hafter).1 (List.mem_map.2 ⟨e, he, heq⟩)
  rw [hothers, hsplit]
  exact List.perm_middle

/-- A key that is given another value is none more. -/
theorem size_insert_of_some {t : Table κ α} {k : κ} {a : α} (h : t.get? k = some a) (b : α) :
    (t.insert k b).size = t.size := by
  show (dropKey k t.entries ++ [(k, b)]).length = t.entries.length
  rw [(perm_of_get? h).length_eq, List.length_append]
  rfl

omit [DecidableEq κ] in
/-- A test keeps some entries, and its opposite keeps the others. -/
theorem size_filter_add (t : Table κ α) (p : κ → α → Bool) :
    (t.filter p).size + (t.filter fun k a => !p k a).size = t.size :=
  (List.length_eq_length_filter_add fun e : κ × α => p e.1 e.2).symm

theorem perm_values_of_get? {t : Table κ α} {k : κ} {a : α} (h : t.get? k = some a) :
    t.values.Perm (a :: (t.erase k).values) :=
  (perm_of_get? h).map Prod.snd

end Switchboard.Table
