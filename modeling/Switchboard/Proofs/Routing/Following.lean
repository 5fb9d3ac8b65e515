import Mathlib.Data.List.Perm.Basic
import Switchboard.Proofs.Routing.Sending

/-!
# What is followed

Of a trail, `followed` picks what bears a number. A move picks up one thing at most (`lift_cases`),
and what is queued in the course of it comes to the end of the queues with the number of that thing
(`trail_move`). So a move that handles nothing that is followed leaves all of it where it is
(`spares_move`), and any other one relays a frame or routes a task that bears a number
(`label_cases`).
-/

namespace Switchboard

namespace Trail

/-- What bears a number, with its number. -/
def followed {α : Type} (items : List (Option Nat × α)) : List (Nat × α) :=
  items.filterMap fun item => item.1.map (·, item.2)

/-- The tasks of a shard, the first one to be routed first. -/
def tasks (t : Trail) : List (Option Nat × Task) := t.inHand ++ t.work

/-- The trail with more behind what waits. -/
def add (t : Trail) (label : Option Nat) (tasks : List Task) (handovers : List Handover) : Trail :=
  { t with
    work := t.work ++ tasks.map (Prod.mk label)
    forward := t.forward ++ handovers.map (Prod.mk label) }

/-- The trail when a processor has put down the task in some slot. -/
def putDown (t : Trail) (slot : Nat) : Trail := { t with inHand := t.inHand.eraseIdx slot }

variable {t t' : Trail} {n slot : Nat}

section Followed

variable {α : Type}

@[simp] theorem followed_nil : followed ([] : List (Option Nat × α)) = [] := rfl

/-- What bears no number is not followed. -/
theorem followed_none (items : List α) : followed (items.map (Prod.mk none)) = [] := by
  rw [followed, List.filterMap_map, List.filterMap_eq_nil_iff]
  exact fun _ _ => rfl

/-- What bears a number is followed under it. -/
theorem followed_some (n : Nat) (items : List α) :
    followed (items.map (Prod.mk (some n))) = items.map (Prod.mk n) := by
  rw [followed, List.filterMap_map]
  show items.filterMap (some ∘ Prod.mk n) = _
  rw [List.filterMap_eq_map]

theorem followed_append (items items' : List (Option Nat × α)) :
    followed (items ++ items') = followed items ++ followed items' := List.filterMap_append

theorem followed_cons_none (item : α) (items : List (Option Nat × α)) :
    followed ((none, item) :: items) = followed items := rfl

theorem followed_cons_some (n : Nat) (item : α) (items : List (Option Nat × α)) :
    followed ((some n, item) :: items) = (n, item) :: followed items := rfl

theorem mem_followed {item : α} {items : List (Option Nat × α)} (h : (some n, item) ∈ items) :
    (n, item) ∈ followed items := List.mem_filterMap.2 ⟨_, h, rfl⟩

theorem followed_sublist {items items' : List (Option Nat × α)} (h : items.Sublist items') :
    (followed items).Sublist (followed items') := h.filterMap _

end Followed

theorem tasks_add (t : Trail) (label : Option Nat) (tasks : List Task)
    (handovers : List Handover) :
    (t.add label tasks handovers).tasks = t.tasks ++ tasks.map (Prod.mk label) :=
  (List.append_assoc ..).symm

/-- Where nothing is queued, nothing is added. -/
theorem add_nil (t : Trail) (label : Option Nat) : t.add label [] [] = t := by
  rw [add, List.map_nil, List.map_nil, List.append_nil, List.append_nil]

/-- Tasks that are queued with a number come behind those that are followed. -/
theorem followed_tasks_add (t : Trail) (n : Nat) (tasks : List Task) (handovers : List Handover) :
    followed (t.add (some n) tasks handovers).tasks
      = followed t.tasks ++ tasks.map (Prod.mk n) := by
  rw [tasks_add, followed_append, followed_some]

theorem followed_forward_add (t : Trail) (n : Nat) (tasks : List Task)
    (handovers : List Handover) : followed (t.add (some n) tasks handovers).forward
      = followed t.forward ++ handovers.map (Prod.mk n) := by
  rw [add, followed_append, followed_some]

/-- A task that is taken is still the same one. -/
theorem tasks_taken (t : Trail) : Trail.tasks { t with
    work := t.work.tail, inHand := t.inHand ++ t.work.head?.toList } = t.tasks := by
  rw [tasks, tasks]
  cases t.work with
  | nil => simp
  | cons task rest => simp

section PutDown

variable {task : Task} (h : t.inHand[slot]? = some (some n, task))

include h

/-- The task that is put down is one of those that were followed, and no other is gone. -/
theorem followed_putDown_perm :
    (followed t.tasks).Perm ((n, task) :: followed (t.putDown slot).tasks) :=
  ((cons_eraseIdx_perm h).symm.append_right t.work).filterMap _

/-- What the only processor has in its hand is the first task. -/
theorem followed_putDown_of_single (hsingle : t.inHand.length ≤ 1) :
    followed t.tasks = (n, task) :: followed (t.putDown slot).tasks := by
  -- with one processor the hand holds one task at most, so it comes before all others
  rw [tasks, ← cons_eraseIdx_of_single h hsingle]
  rfl

end PutDown

/-- What is followed is still there, and nothing else is. -/
structure Spares (t t' : Trail) : Prop where
  tasks : followed t'.tasks = followed t.tasks
  forward : followed t'.forward = followed t.forward

theorem Spares.trans {t'' : Trail} (h : t.Spares t') (h' : t'.Spares t'') : t.Spares t'' where
  tasks := h'.tasks.trans h.tasks
  forward := h'.forward.trans h.forward

theorem spares_of_tasks (htasks : t'.tasks = t.tasks) (hforward : t'.forward = t.forward) :
    t.Spares t' where
  tasks := congrArg followed htasks
  forward := congrArg followed hforward

/-- What is queued without a number is not followed. -/
theorem spares_add_none (t : Trail) (tasks : List Task) (handovers : List Handover) :
    t.Spares (t.add none tasks handovers) where
  tasks := by rw [tasks_add, followed_append, followed_none, List.append_nil]
  forward := by rw [add, followed_append, followed_none, List.append_nil]

theorem spares_tail (h : t.forward.head?.bind Prod.fst = none) :
    t.Spares { t with forward := t.forward.tail } where
  tasks := rfl
  forward := by
    show followed t.forward.tail = _
    cases hforward : t.forward with
    | nil => rfl
    | cons item rest =>
        obtain ⟨label, handover⟩ := item
        rw [hforward] at h
        obtain rfl : label = none := h
        rfl

/-- A task without a number is put down unseen. -/
theorem spares_putDown (h : t.inHand[slot]?.bind Prod.fst = none) : t.Spares (t.putDown slot) := by
  refine ⟨?_, rfl⟩
  rw [tasks, tasks, putDown, followed_append, followed_append]
  refine congrArg (· ++ _) ?_
  cases hslot : t.inHand[slot]? with
  | none => rw [List.eraseIdx_of_length_le (List.getElem?_eq_none_iff.1 hslot)]
  | some item =>
      obtain ⟨label, task⟩ := item
      rw [hslot] at h
      obtain rfl : label = none := h
      obtain ⟨hlt, hitem⟩ := List.getElem?_eq_some_iff.1 hslot
      -- the task stands between others, and these are all that is seen
      have hinHand : t.inHand
          = t.inHand.take slot ++ (none, task) :: t.inHand.drop (slot + 1) := by
        rw [← hitem, List.getElem_cons_drop, List.take_append_drop]
      conv_rhs => rw [hinHand]
      rw [List.eraseIdx_eq_take_drop_succ, followed_append, followed_append, followed_cons_none]

/-- Nothing is followed in the beginning. -/
theorem followed_tasks_unlabelled (t : Traffic) : followed (unlabelled t).tasks = [] := by
  rw [tasks, unlabelled, followed_append, followed_none, followed_none, List.append_nil]

theorem followed_forward_unlabelled (t : Traffic) : followed (unlabelled t).forward = [] :=
  followed_none _

end Trail

namespace Pursuit

open Trail

variable {w w' : Pursuit} {m : Move}

/-- What is queued at a shard in the course of a move bears the number of what the move handles. -/
theorem trail_move (hw : w.Faithful) {id : Nat} (tasks : List Task) (handovers : List Handover)
    (hwork : ((w.result m).traffic id).work = ((w.lifted m).traffic id).work ++ tasks)
    (hforward : ((w.result m).traffic id).forward
      = ((w.lifted m).traffic id).forward ++ handovers) :
    (w.move m).trail id = (w.lift m id).add (w.label m) tasks handovers := by
  rw [← traffic_lift hw] at hwork hforward
  refine Trail.ext ?_ ?_ rfl
  · exact Trail.mark_append hwork
  · exact Trail.mark_append hforward

/-- What is picked up is gone, and nothing is queued. -/
theorem trail_of_traffic (hw : w.Faithful) {id : Nat}
    (h : (w.result m).traffic id = (w.lifted m).traffic id) :
    (w.move m).trail id = w.lift m id := by
  have htrail : (w.move m).trail id = (w.lift m id).add (w.label m) [] [] :=
    trail_move hw [] [] (by rw [h, List.append_nil]) (by rw [h, List.append_nil])
  rwa [add_nil] at htrail

/-- Whatever a move does, what is queued comes behind what is left, with its number. -/
theorem exists_trail_move (hw : w.Faithful) (hm : w.Possible m) (id : Nat) :
    ∃ tasks handovers, (w.move m).trail id = (w.lift m id).add (w.label m) tasks handovers := by
  obtain ⟨⟨tasks, htasks⟩, ⟨handovers, hhandovers⟩, -⟩ := prefix_of_possible hw hm id
  refine ⟨tasks, handovers, Trail.ext ?_ ?_ rfl⟩
  · exact Trail.mark_append htasks.symm
  · exact Trail.mark_append hhandovers.symm

theorem trail_of_queued {shard : Nat} {tasks : List Task} (hw : w.Faithful)
    (h : Exchange.Queued shard tasks (w.lifted m) (w.result m)) (id : Nat) :
    (w.move m).trail id
      = (w.lift m id).add (w.label m) (if id = shard then tasks else []) [] := by
  refine trail_move hw _ [] (h.work id) ?_
  rw [List.append_nil]
  exact h.forward id

theorem config_lifted (w : Pursuit) (m : Move) : (w.lifted m).config = w.exchange.config := by
  cases m with
  | hand shard e raw => rfl
  | other y => rfl
  | act action =>
      cases action with
      | take shard => exact Exchange.config_take _ _
      | relay shard => exact Exchange.config_draw _ _
      | finish shard slot => rfl
      | _ => rfl

/-- No move changes the configuration. -/
theorem config_move (hw : w.Faithful) (hm : w.Possible m) :
    (w.move m).exchange.config = w.exchange.config := by
  have hkeyed := Exchange.keyed_of_connections (connections_lifted w m) hw.keyed
  obtain ⟨-, hgrows | hsheds⟩ := respects_lifted hm hkeyed
  · exact hgrows.config.trans (config_lifted w m)
  · exact hsheds.config.trans (config_lifted w m)

theorem processors_of_config (h : w'.exchange.config = w.exchange.config) :
    w'.exchange.processors = w.exchange.processors := by
  rw [Exchange.processors, h]
  rfl

/-! ## What a move handles -/

/-- What is picked up: a task by a free processor, or the oldest frame that was handed over, or a
task to be routed. -/
theorem lift_cases (w : Pursuit) (m : Move) (id : Nat) :
    w.lift m id = w.trail id ∨
    ((w.trail id).inHand.length < w.exchange.processors ∧ w.lift m id = { w.trail id with
      work := (w.trail id).work.tail
      inHand := (w.trail id).inHand ++ (w.trail id).work.head?.toList }) ∨
    (m = .act (.relay id) ∧
      w.lift m id = { w.trail id with forward := (w.trail id).forward.tail }) ∨
    ∃ slot, m = .act (.finish id slot) ∧ w.lift m id = (w.trail id).putDown slot := by
  cases m with
  | hand shard e raw => exact Or.inl rfl
  | other y => exact Or.inl rfl
  | act action =>
      cases action with
      | take shard =>
          rw [lift]
          split
          · rename_i hfree
            -- only the shard that the move is about has anything picked up
            by_cases hid : id = shard
            · subst hid
              exact Or.inr (Or.inl ⟨hfree, Function.update_self ..⟩)
            · exact Or.inl (Function.update_of_ne hid ..)
          · exact Or.inl rfl
      | relay shard =>
          by_cases hid : id = shard
          · subst hid
            exact Or.inr (Or.inr (Or.inl ⟨rfl, Function.update_self ..⟩))
          · exact Or.inl (Function.update_of_ne hid ..)
      | finish shard slot =>
          by_cases hid : id = shard
          · subst hid
            exact Or.inr (Or.inr (Or.inr ⟨slot, rfl, Function.update_self ..⟩))
          · exact Or.inl (Function.update_of_ne hid ..)
      | _ => exact Or.inl rfl

theorem lift_relay (w : Pursuit) (shard id : Nat) : w.lift (.act (.relay shard)) id
    = if id = shard then { w.trail id with forward := (w.trail id).forward.tail }
      else w.trail id := by
  split
  · rename_i hid
    subst hid
    exact Function.update_self ..
  · rename_i hid
    exact Function.update_of_ne hid ..

theorem lift_finish (w : Pursuit) (shard slot id : Nat) : w.lift (.act (.finish shard slot)) id
    = if id = shard then (w.trail id).putDown slot else w.trail id := by
  split
  · rename_i hid
    subst hid
    exact Function.update_self ..
  · rename_i hid
    exact Function.update_of_ne hid ..

/-- What is picked up was there before. -/
theorem followed_lift_sublist (w : Pursuit) (m : Move) (id : Nat) :
    (followed (w.lift m id).tasks).Sublist (followed (w.trail id).tasks) ∧
    (followed (w.lift m id).forward).Sublist (followed (w.trail id).forward) := by
  rcases w.lift_cases m id with heq | ⟨-, heq⟩ | ⟨-, heq⟩ | ⟨slot, -, heq⟩
  · rw [heq]
    exact ⟨List.Sublist.refl _, List.Sublist.refl _⟩
  · rw [heq, tasks_taken]
    exact ⟨List.Sublist.refl _, List.Sublist.refl _⟩
  · rw [heq]
    exact ⟨List.Sublist.refl _, followed_sublist (List.tail_sublist _)⟩
  · rw [heq]
    exact ⟨followed_sublist ((List.eraseIdx_sublist _ slot).append_right _), List.Sublist.refl _⟩

/-- **A move that handles nothing that is followed leaves all of it where it is.** -/
theorem spares_move (hw : w.Faithful) (hm : w.Possible m) (h : w.label m = none) (id : Nat) :
    (w.trail id).Spares ((w.move m).trail id) := by
  have hlift : (w.trail id).Spares (w.lift m id) := by
    -- what is picked up bears no number, as the move has none
    rcases w.lift_cases m id with heq | ⟨-, heq⟩ | ⟨rfl, heq⟩ | ⟨slot, rfl, heq⟩
    · rw [heq]
      exact spares_of_tasks rfl rfl
    · rw [heq]
      exact spares_of_tasks (tasks_taken _) rfl
    · rw [heq]
      exact spares_tail h
    · rw [heq]
      exact spares_putDown h
  obtain ⟨tasks, handovers, htrail⟩ := exists_trail_move hw hm id
  rw [htrail, h]
  exact hlift.trans (spares_add_none _ _ _)

/-- A move that handles nothing that is followed takes no message in. -/
theorem taken_of_label (h : w.label m = none) : w.taken m = w.accepted := by
  cases m with
  | hand shard e raw => cases h
  | other y => rfl
  | act action => rfl

/-- Whether a message is handed to a shard to be followed. -/
def Move.isHand : Move → Bool
  | .hand _ _ _ => true
  | _ => false

theorem exists_of_isHand (h : m.isHand = true) : ∃ shard e raw, m = .hand shard e raw := by
  cases m with
  | hand shard e raw => exact ⟨shard, e, raw, rfl⟩
  | act action => cases h
  | other y => cases h

/-- **A move that handles something that is followed** hands it in, relays a frame of it, or routes
a task of it. -/
theorem label_cases {n : Nat} (h : w.label m = some n) : m.isHand = true ∨
    (∃ shard handover rest, m = .act (.relay shard) ∧
      (w.trail shard).forward = (some n, handover) :: rest) ∨
    ∃ shard slot task, m = .act (.finish shard slot) ∧
      (w.trail shard).inHand[slot]? = some (some n, task) := by
  cases m with
  | hand shard e raw => exact Or.inl rfl
  | other y => cases h
  | act action =>
      cases action with
      | relay shard =>
          -- the number of a relay is that of the oldest frame
          obtain ⟨⟨label, handover⟩, hhead, rfl⟩ := Option.bind_eq_some_iff.1 h
          obtain ⟨rest, hforward⟩ := List.head?_eq_some_iff.1 hhead
          exact Or.inr (Or.inl ⟨shard, handover, rest, rfl, hforward⟩)
      | finish shard slot =>
          obtain ⟨⟨label, task⟩, hslot, rfl⟩ := Option.bind_eq_some_iff.1 h
          exact Or.inr (Or.inr ⟨shard, slot, task, rfl, hslot⟩)
      | _ => cases h

theorem label_relay {shard n : Nat} {handover : Handover} {rest : List (Option Nat × Handover)}
    (h : (w.trail shard).forward = (some n, handover) :: rest) :
    w.label (.act (.relay shard)) = some n := by
  rw [label, h]
  rfl

theorem label_finish {shard slot n : Nat} {task : Task}
    (h : (w.trail shard).inHand[slot]? = some (some n, task)) :
    w.label (.act (.finish shard slot)) = some n := by
  rw [label, h]
  rfl

/-- What was handed over, without the labels. -/
theorem forward_of_trail (hw : w.Faithful) {shard n : Nat} {handover : Handover}
    {rest : List (Option Nat × Handover)}
    (h : (w.trail shard).forward = (some n, handover) :: rest) :
    (w.exchange.traffic shard).forward = handover :: rest.map Prod.snd := by
  rw [← hw.traffic, Trail.traffic, h]
  rfl

/-- What a processor has in its hand, without the labels. -/
theorem inHand_of_trail (hw : w.Faithful) {shard slot n : Nat} {task : Task}
    (h : (w.trail shard).inHand[slot]? = some (some n, task)) :
    (w.exchange.traffic shard).inHand[slot]? = some task := by
  rw [← hw.traffic, Trail.traffic, List.getElem?_map, h]
  rfl

end Pursuit

end Switchboard
