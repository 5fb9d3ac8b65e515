import Switchboard.Proofs.Fragment.Refusal

/-!
# How long a message may stay incomplete

A message is forgotten by the first sweep that comes as long after its first fragment as the limits
say, or longer. What counts is the fragment that opened the assembly, and nothing that came since:
`OpenedAt` reads its time off the events alone, as the time of the last fragment that found nothing of
the message. `openedAt_of_pending` ties the time that the assembly keeps to it: one event more leaves
an assembly that was there its time (`openedAt_concat`), or opens it now.
-/

namespace Switchboard.Assembler

/-- After some events a message is pending, and the fragment that opened its assembly came at a time:
it found nothing of the message, and the message has been pending ever since. -/
def OpenedAt (a : Assembler) (events : List Event) (id : String) (opened : Nat) : Prop :=
  ∃ before e since, events = before ++ .envelope opened e :: since ∧
    e.isFragment = true ∧ e.messageId = id ∧ (a.after before).pending.get? id = none ∧
    ∀ part, part <+: since →
      ((a.after (before ++ .envelope opened e :: part)).pending.get? id).isSome

variable {a : Assembler} {events : List Event} {event : Event} {id : String}
  {now opened opened' : Nat} {e : Envelope} {assembly : Assembly} {limits : FragmentLimits}

/-! ## The time of the first fragment -/

theorem OpenedAt.isSome (h : a.OpenedAt events id opened) :
    ((a.after events).pending.get? id).isSome := by
  obtain ⟨before, e, since, rfl, -, -, -, hpending⟩ := h
  exact hpending since (List.prefix_refl since)

/-- A fragment that comes while the message is pending has not opened the assembly. -/
theorem OpenedAt.not_lt {before before' since since' : List Event} {e e' : Envelope}
    (heq : before ++ .envelope opened e :: since = before' ++ .envelope opened' e' :: since')
    (hpending : ∀ part, part <+: since →
      ((a.after (before ++ .envelope opened e :: part)).pending.get? id).isSome)
    (hnone : (a.after before').pending.get? id = none) : ¬ before.length < before'.length := by
  intro hlt
  rcases List.append_eq_append_iff.1 heq with ⟨part, rfl, hsince⟩ | ⟨part, hbefore, -⟩
  · cases part with
    | nil =>
        rw [List.append_nil] at hlt
        exact Nat.lt_irrefl _ hlt
    | cons first part =>
        -- the other fragment would have come while the message was pending, and found nothing of it
        obtain ⟨rfl, rfl⟩ := List.cons_eq_cons.1 hsince
        have hsome := hpending part (List.prefix_append part _)
        rw [hnone] at hsome
        cases hsome
  · rw [hbefore, List.length_append] at hlt
    omega

/-- **An assembly was opened at one time.** -/
theorem OpenedAt.unique (h : a.OpenedAt events id opened) (h' : a.OpenedAt events id opened') :
    opened = opened' := by
  obtain ⟨before, e, since, rfl, -, -, hnone, hpending⟩ := h
  obtain ⟨before', e', since', heq, -, -, hnone', hpending'⟩ := h'
  have hle := Nat.not_lt.1 (OpenedAt.not_lt heq hpending hnone')
  have hge := Nat.not_lt.1 (OpenedAt.not_lt heq.symm hpending' hnone)
  -- neither fragment came before the other, so they are the same
  obtain ⟨-, hevents⟩ := List.append_inj heq (Nat.le_antisymm hge hle)
  exact (Event.envelope.inj (List.cons_eq_cons.1 hevents).1).1

/-- An assembly that is still there after one event more has been opened when it was. -/
theorem openedAt_concat (h : a.OpenedAt events id opened)
    (hpending : ((a.after (events ++ [event])).pending.get? id).isSome) :
    a.OpenedAt (events ++ [event]) id opened := by
  obtain ⟨before, e, since, rfl, hfragment, hid, hnone, hsince⟩ := h
  refine ⟨before, e, since ++ [event], by rw [List.append_assoc, List.cons_append], hfragment, hid,
    hnone, fun part hpart => ?_⟩
  rcases List.prefix_concat_iff.1 hpart with rfl | hpart
  · rw [List.append_assoc, List.cons_append] at hpending
    exact hpending
  · exact hsince part hpart

/-- However many events come, as long as the message stays pending. -/
theorem openedAt_append (h : a.OpenedAt events id opened) {more : List Event}
    (hpending : ∀ part, part <+: more → ((a.after (events ++ part)).pending.get? id).isSome) :
    a.OpenedAt (events ++ more) id opened := by
  induction more using List.reverseRecOn with
  | nil =>
      rw [List.append_nil]
      exact h
  | append_singleton more event ih =>
      rw [← List.append_assoc]
      refine openedAt_concat (ih fun part hpart => hpending part (hpart.trans ?_)) ?_
      · exact List.prefix_append more [event]
      · rw [List.append_assoc]
        exact hpending _ (List.prefix_refl _)

/-! ## The time that an assembly keeps -/

theorem openedAt_filled (a : Assembler) (now : Nat) (e : Envelope) :
    (a.filled now e).openedAt
      = ((a.pending.get? e.messageId).map Assembly.openedAt).getD now := by
  rw [filled, assemblyFor]
  cases a.pending.get? e.messageId <;> rfl

/-- What is pending after an event was pending before, with the time that it keeps, or a fragment of
the message has come now and found nothing of it. -/
theorem pending_handle (h : (a.handle event).pending.get? id = some assembly) :
    (∃ before, a.pending.get? id = some before ∧ before.openedAt = assembly.openedAt) ∨
      a.pending.get? id = none ∧ ∃ now e, event = .envelope now e ∧ e.isFragment = true ∧
        e.messageId = id ∧ assembly.openedAt = now := by
  cases event with
  | sweep now =>
      rw [handle, sweep, Table.get?_filter] at h
      exact Or.inl ⟨assembly, (Option.filter_eq_some_iff.1 h).1, rfl⟩
  | envelope now e =>
      rw [handle] at h
      by_cases haccepts : a.accepts now e = true
      · by_cases hid : e.messageId = id
        · subst hid
          -- the fragment has gone to the assembly, which is still there
          rw [receive_of_accepts haccepts] at h
          split at h
          · rw [Table.get?_erase, if_pos rfl] at h
            cases h
          · rw [Table.get?_insert, if_pos rfl] at h
            obtain rfl := Option.some.inj h
            have hopened := openedAt_filled a now e
            cases hget : a.pending.get? e.messageId with
            | none =>
                rw [hget] at hopened
                exact Or.inr ⟨rfl, now, e, rfl, (accepts_iff.1 haccepts).1, rfl, hopened⟩
            | some before =>
                rw [hget] at hopened
                exact Or.inl ⟨before, rfl, hopened.symm⟩
        · rw [get?_receive_of_ne fun _ => hid] at h
          exact Or.inl ⟨assembly, h, rfl⟩
      · rw [receive_of_not_accepts (Bool.eq_false_iff.2 haccepts)] at h
        exact Or.inl ⟨assembly, h, rfl⟩

/-- **The time that an assembly keeps is that of the fragment that opened it.** -/
theorem openedAt_of_pending (hnew : a.pending.get? id = none)
    (h : (a.after events).pending.get? id = some assembly) :
    a.OpenedAt events id assembly.openedAt := by
  induction events using List.reverseRecOn generalizing assembly with
  | nil =>
      rw [show a.after [] = a from rfl, hnew] at h
      cases h
  | append_singleton events event ih =>
      have hpending : ((a.after (events ++ [event])).pending.get? id).isSome := by rw [h]; rfl
      have hevent : (a.after (events ++ [event])) = (a.after events).handle event :=
        after_append a events [event]
      rw [hevent] at h
      -- the last event has left the assembly its time, or has opened it
      rcases pending_handle h with ⟨before, hbefore, htime⟩ |
        ⟨hnone, now, e, rfl, hfragment, hid, htime⟩
      · rw [← htime]
        exact openedAt_concat (ih hbefore) hpending
      · refine ⟨events, e, [], by rw [htime], hfragment, hid, hnone, fun part hpart => ?_⟩
        rw [List.prefix_nil.1 hpart, htime]
        exact hpending

/-- **A message is pending just if its assembly was opened**, and the assembly keeps the time. -/
theorem openedAt_iff (hnew : a.pending.get? id = none) :
    a.OpenedAt events id opened ↔
      ∃ assembly, (a.after events).pending.get? id = some assembly ∧ assembly.openedAt = opened := by
  constructor
  · intro h
    obtain ⟨assembly, hassembly⟩ := Option.isSome_iff_exists.1 h.isSome
    exact ⟨assembly, hassembly, (openedAt_of_pending hnew hassembly).unique h⟩
  · rintro ⟨assembly, hassembly, rfl⟩
    exact openedAt_of_pending hnew hassembly

/-! ## Sweeping -/

/-- The messages whose time is over. -/
def expired (a : Assembler) (now : Nat) : Finset String :=
  (a.pending.filter fun _ assembly => a.isExpired now assembly).keys.toFinset

theorem mem_expired_iff : id ∈ a.expired now ↔
    ∃ assembly, a.pending.get? id = some assembly ∧ a.limits.timeout ≤ now - assembly.openedAt := by
  rw [expired, List.mem_toFinset, Table.mem_keys_iff, Table.get?_filter]
  cases a.pending.get? id with
  | none => simp
  | some assembly => simp [Option.filter, isExpired]

/-- A sweep tells how many messages it forgets. -/
theorem sweep_fst (a : Assembler) (now : Nat) : (a.sweep now).1 = (a.expired now).card := by
  have hsize := a.pending.size_filter_add fun _ assembly => a.isExpired now assembly
  have hcard : (a.pending.filter fun _ assembly => a.isExpired now assembly).size
      = (a.expired now).card :=
    Table.size_eq_card fun id => by rw [expired, List.mem_toFinset, Table.mem_keys_iff]
  show a.pending.size - (a.pending.filter fun _ assembly => !a.isExpired now assembly).size = _
  omega

/-- A sweep forgets the messages whose time is over and keeps the others as they are. -/
theorem get?_pending_sweep (a : Assembler) (now : Nat) (id : String) :
    (a.sweep now).2.pending.get? id
      = if id ∈ a.expired now then none else a.pending.get? id := by
  rw [sweep, Table.get?_filter]
  simp only [mem_expired_iff]
  cases a.pending.get? id with
  | none => simp
  | some assembly =>
      by_cases hover : a.limits.timeout ≤ now - assembly.openedAt <;>
        simp [Option.filter, isExpired, hover]

/-- Whose time is not over at one moment, its time was not over before. -/
theorem isExpired_mono {earlier : Nat} (hle : earlier ≤ now)
    (h : a.isExpired now assembly = false) : a.isExpired earlier assembly = false := by
  rw [isExpired, decide_eq_false_iff_not] at h ⊢
  omega

/-- Nothing is left for a second sweep that comes no later. -/
theorem sweep_sweep {earlier : Nat} (hle : earlier ≤ now) (a : Assembler) :
    (a.sweep now).2.sweep earlier = (0, (a.sweep now).2) := by
  have hentries : (a.sweep now).2.pending.entries.filter
      (fun entry => !(a.sweep now).2.isExpired earlier entry.2) = (a.sweep now).2.pending.entries := by
    refine List.filter_eq_self.2 fun entry hentry => ?_
    have hkept := (List.mem_filter.1 hentry).2
    rw [Bool.not_eq_true'] at hkept ⊢
    exact isExpired_mono hle hkept
  have hsame : (a.sweep now).2.pending.filter
      (fun _ assembly => !(a.sweep now).2.isExpired earlier assembly) = (a.sweep now).2.pending := by
    simp only [Table.filter, hentries]
  rw [sweep]
  simp only [hsame, Nat.sub_self]

/-- **A message may stay incomplete for the time that the limits give, from its first fragment on.**
After any events a message is pending just if its assembly was opened, at one time, and as long as it
stays pending nothing that comes changes that time. A sweep forgets the messages that were opened as
long ago as the limits say or longer, tells their number, and keeps all others as they are; another
sweep that comes no later finds nothing more. A message that was forgotten is answered and kept from
then on as by a new assembler. -/
theorem swept_of_events (limits : FragmentLimits) (events : List Event) :
    let fresh := Assembler.new limits
    let a := fresh.after events
    (∀ id, (a.pending.get? id).isSome ↔ ∃! opened, fresh.OpenedAt events id opened) ∧
    (∀ id opened more, fresh.OpenedAt events id opened →
      (∀ part, part <+: more → ((a.after part).pending.get? id).isSome) →
      fresh.OpenedAt (events ++ more) id opened) ∧
    ∀ now, ∃ gone : Finset String,
      (∀ id, id ∈ gone ↔ ∃ opened, fresh.OpenedAt events id opened ∧ limits.timeout ≤ now - opened) ∧
      (a.sweep now).1 = gone.card ∧
      (∀ id, (a.sweep now).2.pending.get? id = if id ∈ gone then none else a.pending.get? id) ∧
      (∀ earlier ≤ now, (a.sweep now).2.sweep earlier = (0, (a.sweep now).2)) ∧
      ∀ id ∈ gone, ∀ later,
        (a.sweep now).2.answers id later = fresh.answers id later ∧
        ((a.sweep now).2.after later).pending.get? id = (fresh.after later).pending.get? id := by
  intro fresh a
  have hlimits : a.limits = limits := limits_after fresh events
  have hopened (id : String) (opened : Nat) : fresh.OpenedAt events id opened ↔
      ∃ assembly, a.pending.get? id = some assembly ∧ assembly.openedAt = opened := openedAt_iff rfl
  refine ⟨fun id => ⟨fun h => ?_, fun ⟨opened, h, _⟩ => h.isSome⟩, fun id opened more h hpending => ?_,
    fun now => ⟨a.expired now, fun id => ?_, sweep_fst a now, get?_pending_sweep a now,
      fun earlier hle => sweep_sweep hle a, fun id hgone => ?_⟩⟩
  · obtain ⟨assembly, hassembly⟩ := Option.isSome_iff_exists.1 h
    have hfirst := (hopened id _).2 ⟨assembly, hassembly, rfl⟩
    exact ⟨assembly.openedAt, hfirst, fun opened hother => hother.unique hfirst⟩
  · refine openedAt_append h fun part hpart => ?_
    rw [after_append]
    exact hpending part hpart
  · rw [mem_expired_iff, hlimits]
    constructor
    · rintro ⟨assembly, hassembly, hover⟩
      exact ⟨_, (hopened id _).2 ⟨assembly, hassembly, rfl⟩, hover⟩
    · rintro ⟨opened, h, hover⟩
      obtain ⟨assembly, hassembly, rfl⟩ := (hopened id opened).1 h
      exact ⟨assembly, hassembly, hover⟩
  · refine answers_of_unknown hlimits ?_
    rw [get?_pending_sweep, if_pos hgone]

/-- The first share of a message comes twice, the second time much later. A sweep just before the time
is over keeps the message, the next one forgets it, one at an earlier time finds nothing, and the
other share, which comes then, is the first of a new assembly. -/
theorem swept_of_events_repeated :
    let limits := FragmentLimits.make 60 8 1000
    let part (index : UInt32) : Envelope :=
      { messageId := "m1", isFragment := true, fragmentIndex := index, fragmentTotal := 2
        checksum := "none", payload := [1] }
    let fresh := Assembler.new limits
    let events := [Event.envelope 5 (part 0), .envelope 900 (part 0)]
    let a := fresh.after events
    let b := (a.sweep 1005).2
    fresh.OpenedAt (events ++ [.sweep 1004]) "m1" 5 ∧ (a.sweep 1005).1 = 1 ∧
      b.pending.get? "m1" = none ∧ b.sweep 900 = (0, b) ∧
      b.answers "m1" [.envelope 901 (part 1)] = [.ok (.pending 1 2)] := by
  intro limits part fresh events a b
  obtain ⟨-, hkept, hsweep⟩ := swept_of_events limits events
  have hopened : fresh.OpenedAt events "m1" 5 := by
    refine ⟨[], part 0, [.envelope 900 (part 0)], rfl, rfl, rfl, rfl, fun since hsince => ?_⟩
    rcases List.prefix_cons_iff.1 hsince with rfl | ⟨rest, rfl, hrest⟩
    · rfl
    · rw [List.prefix_nil.1 hrest]
      rfl
  obtain ⟨gone, hgone, -, hrest, hagain, hstraggler⟩ := hsweep 1005
  have hover : "m1" ∈ gone := (hgone "m1").2 ⟨5, hopened, Nat.le_refl 1000⟩
  have hstays : fresh.OpenedAt (events ++ [.sweep 1004]) "m1" 5 := by
    refine hkept "m1" 5 [.sweep 1004] hopened fun since hsince => ?_
    rcases List.prefix_cons_iff.1 hsince with rfl | ⟨rest, rfl, hnil⟩
    · rfl
    · rw [List.prefix_nil.1 hnil]
      decide +kernel
  have hcount : (a.sweep 1005).1 = 1 := by decide +kernel
  have hfirst : fresh.answers "m1" [.envelope 901 (part 1)] = [.ok (.pending 1 2)] := rfl
  exact ⟨hstays, hcount, (hrest "m1").trans (if_pos hover), hagain 900 (by decide),
    (hstraggler "m1" hover _).1.trans hfirst⟩

end Switchboard.Assembler
