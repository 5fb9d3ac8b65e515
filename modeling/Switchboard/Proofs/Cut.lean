import Mathlib.Algebra.Order.Floor.Div

/-!
# Cutting a list into runs

`IsCutInto` says what it means that runs are cut from a list: none is empty, every one but the last
has the greatest length, and joined in order they are the list. There is one way only to do that
(`IsCutInto.unique`), since the first run and what is left behind it are told by the length alone
(`of_cons`): the runs are the windows of the list, as many as it fills (`isCutInto_windows`).
-/

namespace Switchboard

variable {α : Type} {size n : Nat} {whole run : List α} {runs runs' : List (List α)}

/-- Runs are what is cut from a list, each as long as may be. -/
structure IsCutInto (size : Nat) (whole : List α) (runs : List (List α)) : Prop where
  nonempty : ∀ run ∈ runs, run ≠ []
  /-- Every run but the last is full. -/
  full : ∀ run ∈ runs.dropLast, run.length = size
  le : ∀ run ∈ runs, run.length ≤ size
  joined : runs.flatten = whole

/-- The run of a list behind so many others. -/
def window (size : Nat) (whole : List α) (n : Nat) : List α := (whole.drop (n * size)).take size

namespace IsCutInto

theorem nil (size : Nat) : IsCutInto size ([] : List α) [] :=
  ⟨fun _ h => absurd h List.not_mem_nil, fun _ h => absurd h List.not_mem_nil,
    fun _ h => absurd h List.not_mem_nil, rfl⟩

/-- A run is cut off, and what is left is cut. -/
theorem cons (size_pos : 0 < size) (hwhole : whole ≠ [])
    (h : IsCutInto size (whole.drop size) runs) :
    IsCutInto size whole (whole.take size :: runs) := by
  have hpos := List.length_pos_iff.2 hwhole
  have hlength : (whole.take size).length = min size whole.length := List.length_take
  refine ⟨?_, ?_, ?_, by rw [List.flatten_cons, h.joined, List.take_append_drop]⟩
  · refine List.forall_mem_cons.2 ⟨fun hnil => ?_, h.nonempty⟩
    rw [hnil, List.length_nil] at hlength
    omega
  · by_cases hruns : runs = []
    · rw [hruns]
      exact fun _ h => absurd h List.not_mem_nil
    · -- something is left behind the run, so it is full
      have hrest : 0 < (whole.drop size).length := by
        rw [← h.joined, List.length_pos_iff]
        intro hnil
        obtain ⟨run, hrun⟩ := List.exists_mem_of_ne_nil _ hruns
        exact h.nonempty run hrun (List.flatten_eq_nil_iff.1 hnil run hrun)
      rw [List.length_drop] at hrest
      rw [List.dropLast_cons_of_ne_nil hruns, List.forall_mem_cons]
      exact ⟨by omega, h.full⟩
  · exact List.forall_mem_cons.2 ⟨by omega, h.le⟩

/-- The first run is as much as there is or may be, and the others are cut from what is left. -/
theorem of_cons (h : IsCutInto size whole (run :: runs)) :
    run = whole.take size ∧ IsCutInto size (whole.drop size) runs := by
  obtain ⟨-, hnonempty⟩ := List.forall_mem_cons.1 h.nonempty
  obtain ⟨hle, hles⟩ := List.forall_mem_cons.1 h.le
  have hjoined : whole = run ++ runs.flatten := h.joined.symm
  by_cases hruns : runs = []
  · subst hruns
    rw [List.flatten_nil, List.append_nil] at hjoined
    rw [hjoined, List.take_of_length_le hle, List.drop_of_length_le hle]
    exact ⟨rfl, nil size⟩
  · have hfull := h.full
    rw [List.dropLast_cons_of_ne_nil hruns, List.forall_mem_cons] at hfull
    rw [hjoined, List.take_left' hfull.1, List.drop_left' hfull.1]
    exact ⟨rfl, hnonempty, hfull.2, hles, rfl⟩

/-- **A list can be cut in one way only.** -/
theorem unique (h : IsCutInto size whole runs) (h' : IsCutInto size whole runs') : runs = runs' := by
  -- on the one list of runs, for any whole: both lists lose the same first run
  induction runs generalizing whole runs' with
  | nil =>
      obtain rfl : whole = [] := h.joined.symm
      cases runs' with
      | nil => rfl
      | cons run runs' =>
          have hrun := List.flatten_eq_nil_iff.1 h'.joined run List.mem_cons_self
          exact absurd hrun (h'.nonempty run List.mem_cons_self)
  | cons run runs ih =>
      cases runs' with
      | nil =>
          obtain rfl : whole = [] := h'.joined.symm
          have hrun := List.flatten_eq_nil_iff.1 h.joined run List.mem_cons_self
          exact absurd hrun (h.nonempty run List.mem_cons_self)
      | cons run' runs' =>
          obtain ⟨hrun, hrest⟩ := h.of_cons
          obtain ⟨hrun', hrest'⟩ := h'.of_cons
          rw [hrun, hrun', ih hrest hrest']

end IsCutInto

/-! ## The runs of a list -/

theorem window_zero (size : Nat) (whole : List α) : window size whole 0 = whole.take size := by
  rw [window, Nat.zero_mul, List.drop_zero]

theorem window_succ (size : Nat) (whole : List α) (n : Nat) :
    window size whole (n + 1) = window size (whole.drop size) n := by
  rw [window, window, List.drop_drop, Nat.succ_mul, Nat.add_comm]

/-- The windows that have anything in them are the runs. -/
theorem isCutInto_windows_of (size_pos : 0 < size) (h : ∀ k, k < n ↔ k * size < whole.length) :
    IsCutInto size whole ((List.range n).map (window size whole)) := by
  induction n generalizing whole with
  | zero =>
      have hnil : whole = [] := by
        have hzero := h 0
        rw [Nat.zero_mul] at hzero
        exact List.length_eq_zero_iff.1 (by omega)
      rw [hnil]
      exact .nil size
  | succ n ih =>
      have hpos := (h 0).1 (Nat.succ_pos n)
      rw [Nat.zero_mul] at hpos
      have hrest : IsCutInto size (whole.drop size)
          ((List.range n).map (window size (whole.drop size))) := by
        refine ih fun k => ?_
        have hsucc := h (k + 1)
        rw [Nat.succ_mul] at hsucc
        rw [List.length_drop]
        omega
      -- behind the first run, a window of the list is one of what is left, one place earlier
      have hothers : window size whole ∘ Nat.succ = window size (whole.drop size) :=
        funext fun k => window_succ size whole k
      rw [List.range_succ_eq_map, List.map_cons, List.map_map, hothers, window_zero]
      exact .cons size_pos (List.length_pos_iff.1 hpos) hrest

theorem lt_ceilDiv_iff (size_pos : 0 < size) (k length : Nat) :
    k < length ⌈/⌉ size ↔ k * size < length := by
  rw [← Nat.not_le, ceilDiv_le_iff_le_mul size_pos, Nat.not_le, Nat.mul_comm]

/-- **The runs of a list are its windows**, as many as it fills. -/
theorem isCutInto_windows (size_pos : 0 < size) (whole : List α) :
    IsCutInto size whole ((List.range (whole.length ⌈/⌉ size)).map (window size whole)) :=
  isCutInto_windows_of size_pos fun k => lt_ceilDiv_iff size_pos k whole.length

/-- Behind the runs there is nothing. -/
theorem window_eq_nil (size_pos : 0 < size) (h : whole.length ⌈/⌉ size ≤ n) :
    window size whole n = [] := by
  rw [← Nat.not_lt, lt_ceilDiv_iff size_pos, Nat.not_lt] at h
  rw [window, List.drop_of_length_le h, List.take_nil]

end Switchboard
