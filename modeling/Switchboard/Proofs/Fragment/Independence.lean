import Switchboard.Proofs.Fragment.Soundness

/-!
# Messages do not get in each other's way

What an assembler answers to the envelopes of one message, and what it keeps of that message, is as
if no others had come (`answers_filter`). So nobody can spoil, complete or prolong a message without
knowing its identity.

Two runs are compared, one with the others and one without. They are `Alike` as far as the message
goes: an event that concerns it is answered alike and leaves them alike (`alike_handle`), and an
envelope of another message changes nothing of this one (`alike_of_other`).
-/

namespace Switchboard.Assembler

/-- Whether an event may have to do with a message: an envelope comes that bears its identity, or
old assemblies are forgotten. -/
def Event.concerns (id : String) : Event → Bool
  | .envelope _ e => e.messageId = id
  | .sweep _ => true

/-- What is answered to an event, if it is an envelope that bears an identity. -/
def answer? (id : String) (a : Assembler) : Event → Option (Except FragmentFault Outcome)
  | .envelope now e => if e.messageId = id then some (a.receive now e).1 else none
  | .sweep _ => none

/-- What is answered to the envelopes that bear an identity, in the order in which they come. -/
def answers (id : String) : Assembler → List Event → List (Except FragmentFault Outcome)
  | _, [] => []
  | a, event :: events => (a.answer? id event).toList ++ answers id (a.handle event) events

/-- Two assemblers with the same limits that have the same of a message. -/
structure Alike (id : String) (a b : Assembler) : Prop where
  limits : a.limits = b.limits
  pending : a.pending.get? id = b.pending.get? id

variable {id : String} {a b : Assembler} {now : Nat} {e : Envelope}

theorem Alike.refl (id : String) (a : Assembler) : Alike id a a := ⟨rfl, rfl⟩

/-! ## What concerns the message -/

/-- A fragment finds the same assembly in both. -/
theorem assemblyFor_eq (h : Alike e.messageId a b) (now : Nat) :
    a.assemblyFor now e = b.assemblyFor now e := by
  rw [assemblyFor, assemblyFor, h.pending]

theorem check_eq (h : a.limits = b.limits) (e : Envelope) : a.check e = b.check e := by
  rw [check, check, h]

/-- An envelope of the message is answered alike. -/
theorem receive_fst_eq (h : Alike e.messageId a b) (now : Nat) :
    (a.receive now e).1 = (b.receive now e).1 := by
  rw [receive, receive]
  cases e.isFragment with
  | false => rfl
  | true =>
      simp only [Bool.not_true, Bool.false_eq_true, if_false, check_eq h.limits,
        assemblyFor_eq h now]
      cases b.check e with
      | error fault => rfl
      | ok u =>
          dsimp only
          cases checkAgainst (b.assemblyFor now e) e with
          | error fault => rfl
          | ok u =>
              dsimp only
              split
              · cases ((b.assemblyFor now e).add e.fragmentIndex e.payload).message e.messageId <;>
                  rfl
              · rfl

/-- An envelope of the message leaves the same of it in both. -/
theorem get?_receive_eq (h : Alike e.messageId a b) (now : Nat) :
    (a.receive now e).2.pending.get? e.messageId = (b.receive now e).2.pending.get? e.messageId := by
  have hfilled : a.filled now e = b.filled now e := by rw [filled, filled, assemblyFor_eq h now]
  have haccepts : a.accepts now e = b.accepts now e := by
    rw [accepts, accepts, check_eq h.limits, assemblyFor_eq h now]
  by_cases hb : b.accepts now e = true
  · -- it is taken in: the assembly is over, or has one share more
    rw [receive_of_accepts (haccepts.trans hb), receive_of_accepts hb, hfilled]
    split
    · rw [Table.get?_erase, Table.get?_erase, if_pos rfl, if_pos rfl]
    · rw [Table.get?_insert, Table.get?_insert, if_pos rfl, if_pos rfl]
  · rw [Bool.not_eq_true] at hb
    rw [receive_of_not_accepts (haccepts.trans hb), receive_of_not_accepts hb]
    exact h.pending

/-- What is forgotten of the message is the same in both. -/
theorem get?_sweep_eq (h : Alike id a b) (now : Nat) :
    (a.sweep now).2.pending.get? id = (b.sweep now).2.pending.get? id := by
  have hexpired : a.isExpired now = b.isExpired now := by
    funext assembly
    rw [isExpired, isExpired, h.limits]
  rw [sweep, sweep, Table.get?_filter, Table.get?_filter, h.pending, hexpired]

@[simp] theorem limits_handle (a : Assembler) (event : Event) : (a.handle event).limits = a.limits := by
  cases event with
  | envelope now e => exact limits_receive a now e
  | sweep now => rfl

/-- **What concerns the message does the same in both.** -/
theorem alike_handle (h : Alike id a b) {event : Event} (hevent : event.concerns id = true) :
    a.answer? id event = b.answer? id event ∧ Alike id (a.handle event) (b.handle event) := by
  have hlimits : (a.handle event).limits = (b.handle event).limits := by
    rw [limits_handle, limits_handle, h.limits]
  cases event with
  | envelope now e =>
      obtain rfl : e.messageId = id := of_decide_eq_true hevent
      refine ⟨?_, hlimits, get?_receive_eq h now⟩
      rw [answer?, answer?, receive_fst_eq h now]
  | sweep now => exact ⟨rfl, hlimits, get?_sweep_eq h now⟩

/-! ## What does not -/

/-- **An envelope of another message is none of this one's**, however the first run got there. -/
theorem alike_of_other (h : Alike id a b) {event : Event} (hevent : event.concerns id = false) :
    a.answer? id event = none ∧ Alike id (a.handle event) b := by
  cases event with
  | envelope now e =>
      have hne : e.messageId ≠ id := of_decide_eq_false hevent
      refine ⟨if_neg hne, ?_, ?_⟩
      · rw [limits_handle, h.limits]
      · rw [handle, get?_receive_of_ne fun _ => hne]
        exact h.pending
  | sweep now => cases hevent

/-! ## Any number of events -/

/-- Of two runs that are alike, one may leave the envelopes of other messages out. -/
theorem answers_of_alike (h : Alike id a b) (events : List Event) :
    a.answers id events = b.answers id (events.filter (·.concerns id))
      ∧ Alike id (a.after events) (b.after (events.filter (·.concerns id))) := by
  induction events generalizing a b with
  | nil => exact ⟨rfl, h⟩
  | cons event events ih =>
      cases hevent : event.concerns id with
      | true =>
          obtain ⟨hanswer, hnext⟩ := alike_handle h hevent
          obtain ⟨hanswers, hafter⟩ := ih hnext
          rw [List.filter_cons_of_pos hevent]
          refine ⟨?_, hafter⟩
          rw [answers, answers, hanswer, hanswers]
      | false =>
          obtain ⟨hanswer, hnext⟩ := alike_of_other h hevent
          obtain ⟨hanswers, hafter⟩ := ih hnext
          rw [List.filter_cons_of_neg (by rw [hevent]; exact Bool.false_ne_true)]
          refine ⟨?_, hafter⟩
          rw [answers, hanswer, Option.toList_none, List.nil_append, hanswers]

/-- **Whatever comes of other messages, each is answered and kept as if it were alone.** Of any
events, with envelopes of anybody's making and sweeps at any times, those that bear an identity get
the answers that they would get if no envelope of another message had ever come, and what is pending
of the message in the end is the same. -/
theorem answers_filter (a : Assembler) (id : String) (events : List Event) :
    let alone := events.filter (·.concerns id)
    a.answers id events = a.answers id alone
      ∧ (a.after events).pending.get? id = (a.after alone).pending.get? id := by
  obtain ⟨hanswers, hafter⟩ := answers_of_alike (.refl id a) events
  exact ⟨hanswers, hafter.pending⟩

end Switchboard.Assembler
