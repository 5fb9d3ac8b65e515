import Switchboard.Proofs.Fragment.Independence

/-!
# Fragments that are refused

An assembler refuses an envelope for one of two kinds of reasons. Something may be wrong with the
fragment itself, on its own or beside those that came before it: then nothing has changed, and
whatever comes later goes as if the fragment had never come. Or the fragment fills the last gap, and
what is there now is not the message: then the assembly is over, that of no other message is touched,
and whoever sends the message again finds an assembler that has never heard of it.

That the last gap was filled needs the invariant of `Sound`: an assembly that is pending lacks a
share, so one that is full has just been filled (`fillsLast_of_full`).
-/

namespace Switchboard

namespace FragmentFault

/-- What is wrong with a fragment itself. -/
def isOfFragment : FragmentFault → Bool
  | missingMessageId | invalidTotal .. | indexOutOfRange .. | totalMismatch ..
  | checksumMismatch _ => true
  | integrityFailure _ | tooManyFragments .. | codec _ => false

/-- What is wrong with a message whose fragments are all there. -/
def isOfMessage : FragmentFault → Bool
  | integrityFailure _ | codec _ => true
  | missingMessageId | invalidTotal .. | indexOutOfRange .. | totalMismatch ..
  | checksumMismatch _ | tooManyFragments .. => false

end FragmentFault

namespace Assembler

/-- What an assembler says to an event. -/
inductive Reply
  | answer (result : Except FragmentFault Outcome)
  | swept (count : Nat)

/-- What is said to an event. -/
def reply (a : Assembler) : Event → Reply
  | .envelope now e => .answer (a.receive now e).1
  | .sweep now => .swept (a.sweep now).1

/-- What is said to each of some events. -/
def replies : Assembler → List Event → List Reply
  | _, [] => []
  | a, event :: events => a.reply event :: replies (a.handle event) events

/-- A fragment fills the last gap of an assembly. -/
structure FillsLast (assembly : Assembly) (e : Envelope) : Prop where
  place : e.fragmentIndex < assembly.total
  missing : assembly.parts.get? e.fragmentIndex = none
  others : ∀ index < assembly.total, index ≠ e.fragmentIndex →
    (assembly.parts.get? index).isSome

variable {a : Assembler} {now : Nat} {e : Envelope} {fault : FragmentFault} {assembly : Assembly}
  {limits : FragmentLimits} {id : String}

/-! ## Faults and where they come from -/

theorem isOfFragment_of_check (h : a.check e = .error fault) : fault.isOfFragment = true := by
  rw [check] at h
  split at h
  · cases h; rfl
  · split at h
    · cases h; rfl
    · split at h
      · cases h; rfl
      · cases h

theorem isOfFragment_of_checkAgainst (h : checkAgainst assembly e = .error fault) :
    fault.isOfFragment = true := by
  rw [checkAgainst] at h
  split at h
  · cases h; rfl
  · split at h
    · cases h; rfl
    · cases h

theorem isOfMessage_of_message (h : assembly.message id = .error fault) :
    fault.isOfMessage = true := by
  rw [Assembly.message] at h
  split at h
  · split at h
    · cases h
    · cases h; rfl
  · cases h; rfl

/-! ## A full assembly has just been filled -/

/-- What a fragment finds lacks the share that it brings, if the assembly is full with it. -/
theorem get?_parts_of_full {r : Archive} (h : Sound limits r)
    (hfull : (r.assembler.filled now e).received = (r.assembler.filled now e).total.toNat) :
    (r.assembler.assemblyFor now e).parts.get? e.fragmentIndex = none := by
  rw [filled] at hfull
  rw [assemblyFor] at hfull ⊢
  cases hget : r.assembler.pending.get? e.messageId with
  | none => rfl
  | some assembly =>
      rw [hget] at hfull
      rw [Option.getD_some] at hfull ⊢
      by_contra hne
      obtain ⟨share, hshare⟩ := Option.ne_none_iff_exists'.1 hne
      -- a share in place of another adds nothing, so the assembly would have been full before
      have hsame : (assembly.add e.fragmentIndex e.payload).received = assembly.received :=
        Table.size_insert_of_some hshare e.payload
      have hlacking := (h.2 _ _ hget).lacking
      rw [hsame] at hfull
      exact absurd hfull (Nat.ne_of_lt hlacking)

theorem fillsLast_of_full {r : Archive} (h : Sound limits r)
    (haccepts : r.assembler.accepts now e = true)
    (hfull : (r.assembler.filled now e).received = (r.assembler.filled now e).total.toNat) :
    FillsLast (r.assembler.assemblyFor now e) e := by
  have hbacked := backed_filled h haccepts
  refine ⟨?_, get?_parts_of_full h hfull, fun index hindex hne => ?_⟩
  · exact hbacked.index e (List.mem_append_right _ List.mem_cons_self)
  · -- every place is taken now, and the fragment took no other one than its own
    have hall := latest_of_full hbacked hfull (UInt32.lt_iff_toNat_lt.1 hindex)
    rw [UInt32.ofNat_toNat, ← hbacked.parts, filled, Assembly.add, Table.get?_insert,
      if_neg hne] at hall
    exact hall

/-! ## Before and after -/

theorem after_append (a : Assembler) (events more : List Event) :
    a.after (events ++ more) = (a.after events).after more :=
  List.foldl_append

theorem replies_append (a : Assembler) (events more : List Event) :
    a.replies (events ++ more) = a.replies events ++ (a.after events).replies more := by
  induction events generalizing a with
  | nil => rfl
  | cons event events ih => exact congrArg (a.reply event :: ·) (ih (a.handle event))

theorem length_replies (a : Assembler) (events : List Event) :
    (a.replies events).length = events.length := by
  induction events generalizing a with
  | nil => rfl
  | cons event events ih => exact congrArg (· + 1) (ih (a.handle event))

/-- What changes nothing is as if it had not come, but for the answer to it. -/
theorem replies_of_unchanged {past : List Event} {event : Event}
    (h : (a.after past).handle event = a.after past) (later : List Event) :
    a.after (past ++ event :: later) = a.after (past ++ later) ∧
      (a.replies (past ++ event :: later)).eraseIdx past.length = a.replies (past ++ later) := by
  constructor
  · rw [after_append, after_append]
    exact congrArg (after · later) h
  · rw [replies_append, replies_append,
      List.eraseIdx_append_of_length_le (Nat.le_of_eq (length_replies a past)), length_replies,
      Nat.sub_self, replies, h]
    rfl

theorem limits_after (a : Assembler) (events : List Event) : (a.after events).limits = a.limits := by
  induction events generalizing a with
  | nil => rfl
  | cons event events ih => exact (ih (a.handle event)).trans (limits_handle a event)

/-- An assembler that has nothing of a message goes on with it as a new one does: the other messages
that it has do not matter to this one. -/
theorem answers_of_unknown (hlimits : a.limits = limits) (h : a.pending.get? id = none)
    (later : List Event) :
    a.answers id later = (Assembler.new limits).answers id later ∧
      (a.after later).pending.get? id = ((Assembler.new limits).after later).pending.get? id := by
  have hnew : Alike id a (.new limits) := ⟨hlimits, h⟩
  obtain ⟨hanswers, halike⟩ := answers_of_alike hnew later
  obtain ⟨hanswers', halike'⟩ := answers_of_alike (.refl id (.new limits)) later
  exact ⟨hanswers.trans hanswers'.symm, halike.pending.trans halike'.pending.symm⟩

/-- **A fragment that is refused spoils nothing.** Let an assembler refuse an envelope after any
events. Either something is wrong with the fragment: then the assembler is as it was, to the last
share and time, and whatever comes later leads to the same and gets the same answers as if the
fragment had not come. Or the message is wrong: then the fragment filled the last gap of its assembly,
what is left is what was there without that assembly, and whatever comes later of the message is
answered and kept as by a new assembler. There is no other fault. It does not matter whether the
table is written to in place. -/
theorem refused_of_events (limits : FragmentLimits) (past : List Event) (now : Nat) (e : Envelope)
    (fault : FragmentFault)
    (h : (((Assembler.new limits).after past).receive now e).1 = .error fault) :
    let fresh := Assembler.new limits
    let a := fresh.after past
    let b := (a.receive now e).2
    ((fault.isOfFragment = true ∧ b = a ∧ ∀ later,
        fresh.after (past ++ .envelope now e :: later) = fresh.after (past ++ later) ∧
        (fresh.replies (past ++ .envelope now e :: later)).eraseIdx past.length
          = fresh.replies (past ++ later)) ∨
      (fault.isOfMessage = true ∧ FillsLast (a.assemblyFor now e) e ∧
        b = { a with pending := a.pending.erase e.messageId } ∧ ∀ later,
          b.answers e.messageId later = fresh.answers e.messageId later ∧
          (b.after later).pending.get? e.messageId
            = (fresh.after later).pending.get? e.messageId)) ∧
    ∀ absent, a.receiveInPlace absent now e = a.receive now e := by
  intro fresh a b
  refine ⟨?_, fun absent => receiveInPlace_eq absent a now e⟩
  have hassembler : ((Archive.new limits).after past).assembler = (Assembler.new limits).after past :=
    Archive.assembler_after (.new limits) past
  have hsound : Sound limits ((Archive.new limits).after past) := sound_after (sound_new limits) past
  rcases receive_error_cases h with ⟨hrefused, hwrong⟩ | ⟨haccepts, hfull, hmessage⟩
  · have hsame : b = a := receive_of_not_accepts hrefused
    exact Or.inl ⟨hwrong.elim isOfFragment_of_check isOfFragment_of_checkAgainst, hsame,
      replies_of_unchanged hsame⟩
  · have hrest : b = { a with pending := a.pending.erase e.messageId } := by
      show (a.receive now e).2 = _
      rw [receive_of_accepts haccepts, if_pos hfull]
    have hgone : b.pending.get? e.messageId = none := by
      rw [hrest, Table.get?_erase, if_pos rfl]
    have hlimits : b.limits = limits := by
      rw [hrest]
      exact limits_after fresh past
    refine Or.inr ⟨isOfMessage_of_message hmessage, ?_, hrest, answers_of_unknown hlimits hgone⟩
    show FillsLast (((Assembler.new limits).after past).assemblyFor now e) e
    rw [← hassembler] at haccepts hfull ⊢
    exact fillsLast_of_full hsound haccepts hfull

/-- A message in two fragments that declare a digest which is none. One with another total is refused
in between and leaves no trace; the second one fills the gap, and the message is given up. -/
theorem refused_of_events_forged :
    let limits := FragmentLimits.make 60 8 1000
    let part (index : UInt32) (share : Bytes) : Envelope :=
      { messageId := "m1", isFragment := true, fragmentIndex := index, fragmentTotal := 2
        checksum := "none", payload := share }
    let forged := { part 1 [2] with fragmentTotal := 3 }
    let a := (Assembler.new limits).after [.envelope 0 (part 0 [1])]
    (a.receive 1 forged).1 = .error (.totalMismatch "m1" 2 3) ∧ (a.receive 1 forged).2 = a ∧
      (a.receive 2 (part 1 [2])).1 = .error (.integrityFailure "m1") ∧
      FillsLast (a.assemblyFor 2 (part 1 [2])) (part 1 [2]) ∧
      (a.receive 2 (part 1 [2])).2.pending.get? "m1" = none := by
  intro limits part forged a
  have hforged : (a.receive 1 forged).1 = .error (.totalMismatch "m1" 2 3) := rfl
  have hdigest : Digest.checksum (a.filled 2 (part 1 [2])).octets ≠ "none" := by
    intro heq
    exact absurd ((congrArg String.length heq).symm.trans (length_checksum _)) (by decide)
  have haccepts : a.accepts 2 (part 1 [2]) = true := rfl
  have hfull : (a.filled 2 (part 1 [2])).received = (a.filled 2 (part 1 [2])).total.toNat := rfl
  have hspoilt : (a.receive 2 (part 1 [2])).1 = .error (.integrityFailure "m1") := by
    have hmessage : (a.filled 2 (part 1 [2])).message (part 1 [2]).messageId
        = .error (.integrityFailure "m1") := if_neg hdigest
    rw [receive_of_accepts haccepts, if_pos hfull, hmessage]
    rfl
  refine ⟨hforged, ?_, hspoilt, ?_⟩
  · rcases (refused_of_events limits _ 1 forged _ hforged).1 with ⟨-, hsame, -⟩ | ⟨hmessage, -⟩
    · exact hsame
    · cases hmessage
  · rcases (refused_of_events limits _ 2 (part 1 [2]) _ hspoilt).1 with ⟨hfragment, -⟩ |
      ⟨-, hfills, hrest, -⟩
    · cases hfragment
    · refine ⟨hfills, ?_⟩
      rw [hrest, Table.get?_erase]
      exact if_pos rfl

end Assembler

end Switchboard
