import Switchboard.Proofs.Cut
import Switchboard.Service.Offline

/-!
# What is unread, and how it is listed

What a store holds is told by the calls that were made to it. Each call to keep a message brings one,
and all that later calls do to it is to mark it as read (`after_eq`). So nothing is ever lost, what is
read stays read, and what is unread for a target is what some calls brought for it and none marked
since (`outstanding`), whatever identities the messages have in common.

The pages of a target are windows of that list (`listUnread_succ`), so they are what is cut from it,
each as long as may be, and there is nothing behind them. `unread_of_calls` puts this together.
-/

namespace Switchboard

namespace OfflineStore

/-- What a store is asked to do. -/
inductive Call
  | persist (messageId sender target content : String) (now : Nat)
  | markRead (target : String) (ids : List String)

namespace Call

/-- The message that a call brings. -/
def message? : Call → Option StoredMessage
  | persist messageId sender target content now =>
      some { messageId, sender, target, content, isRead := false, createdAt := now }
  | markRead .. => none

/-- Whether a call is to mark a message as read, be it read or not. -/
def marks (m : StoredMessage) : Call → Bool
  | persist .. => false
  | markRead target ids => m.target = target && ids.contains m.messageId

end Call

/-- The messages that some calls bring for a target and that none of the calls after theirs marks as
read, in the order of the calls. -/
def outstanding (target : String) : List Call → List StoredMessage
  | [] => []
  | call :: later =>
      (call.message?.filter fun m => m.target = target && !later.any (·.marks m)).toList
        ++ outstanding target later

def handle (s : OfflineStore) : Call → OfflineStore
  | .persist messageId sender target content now => s.persist messageId sender target content now
  | .markRead target ids => (s.markRead target ids).2

/-- What a store comes to after some calls. -/
def after (s : OfflineStore) (calls : List Call) : OfflineStore := calls.foldl handle s

end OfflineStore

/-- What becomes of a message by some calls: it is read if it was or if one of them marks it. -/
def StoredMessage.seen (calls : List OfflineStore.Call) (m : StoredMessage) : StoredMessage :=
  { m with isRead := m.isRead || calls.any (·.marks m) }

namespace OfflineStore

/-- The messages that some calls bring, as the calls after theirs leave them. -/
def recorded : List Call → OfflineStore
  | [] => []
  | call :: later => (call.message?.map (StoredMessage.seen later)).toList ++ recorded later

variable {s : OfflineStore} {call : Call} {calls more : List Call} {target : String}
  {ids : List String} {m : StoredMessage}

/-! ## What the store holds -/

theorem seen_of_isRead (h : m.isRead = true) : m.seen calls = m := by
  rw [StoredMessage.seen, h, Bool.true_or, ← h]

theorem seen_of_not_marked (h : calls.any (·.marks m) = false) : m.seen calls = m := by
  rw [StoredMessage.seen, h, Bool.or_false]

/-- One call and then others do what they all do. -/
theorem seen_seen (call : Call) (later : List Call) (m : StoredMessage) :
    (m.seen [call]).seen later = m.seen (call :: later) := by
  have hmarks : (fun c : Call => c.marks (m.seen [call])) = fun c => c.marks m := by
    funext c
    cases c <;> rfl
  -- a mark changes nothing that other calls look at
  rw [StoredMessage.seen, hmarks]
  simp only [StoredMessage.seen, List.any_cons, List.any_nil, Bool.or_false, Bool.or_assoc]

theorem isMarked_eq (target : String) (ids : List String) (m : StoredMessage) :
    isMarked target ids m = (!m.isRead && (Call.markRead target ids).marks m) := by
  rw [isMarked, isUnreadFor, Call.marks, Bool.and_right_comm, Bool.and_comm]

theorem markRead_snd (s : OfflineStore) (target : String) (ids : List String) :
    (s.markRead target ids).2 = s.map (StoredMessage.seen [.markRead target ids]) := by
  refine List.map_congr_left fun m _ => ?_
  have hany : [Call.markRead target ids].any (·.marks m) = (Call.markRead target ids).marks m := by
    rw [List.any_cons, List.any_nil, Bool.or_false]
  rw [isMarked_eq]
  cases hread : m.isRead with
  | true => exact (seen_of_isRead hread).symm
  | false =>
      cases hmarks : (Call.markRead target ids).marks m with
      | true => rw [StoredMessage.seen, hany, hmarks, Bool.or_true]; rfl
      | false => exact (seen_of_not_marked (hany.trans hmarks)).symm

/-- A call leaves every message at its place, does to it what it does, and brings what it brings. -/
theorem handle_eq (s : OfflineStore) (call : Call) :
    s.handle call = s.map (StoredMessage.seen [call]) ++ call.message?.toList := by
  cases call with
  | persist messageId sender target content now =>
      have hsame : StoredMessage.seen [.persist messageId sender target content now] = id :=
        funext fun m => seen_of_not_marked rfl
      rw [hsame, List.map_id]
      rfl
  | markRead target ids =>
      rw [handle, markRead_snd, Call.message?, Option.toList_none, List.append_nil]

/-- **What a store holds is told by the calls**: each message that it had or that a call brings, in
order, with what the calls after that do to it. -/
theorem after_eq (s : OfflineStore) (calls : List Call) :
    s.after calls = s.map (StoredMessage.seen calls) ++ recorded calls := by
  -- for every store: the calls after the first find another one than the first does
  induction calls generalizing s with
  | nil =>
      have hsame : StoredMessage.seen [] = id := funext fun m => seen_of_not_marked List.any_nil
      rw [recorded, List.append_nil, hsame, List.map_id]
      rfl
  | cons call later ih =>
      have hseen : StoredMessage.seen later ∘ StoredMessage.seen [call]
          = StoredMessage.seen (call :: later) := funext fun m => seen_seen call later m
      show (s.handle call).after later = _
      rw [ih, handle_eq, List.map_append, List.map_map, hseen, List.append_assoc, recorded,
        Option.toList_map]

/-- A message keeps its place, and is read if it was or if one of the calls marks it. -/
theorem getElem?_after {place : Nat} (h : s[place]? = some m) :
    (s.after more)[place]? = some (m.seen more) := by
  obtain ⟨hplace, -⟩ := List.getElem?_eq_some_iff.1 h
  rw [after_eq, List.getElem?_append_left (by rwa [List.length_map]), List.getElem?_map, h]
  rfl

/-- But for the marks, what is recorded is what the calls bring. -/
theorem map_unread_recorded (calls : List Call) :
    (recorded calls).map (fun m => { m with isRead := false }) = calls.filterMap Call.message? := by
  induction calls with
  | nil => rfl
  | cons call later ih =>
      rw [recorded, List.map_append, ih]
      cases call <;> rfl

/-! ## What is unread -/

theorem isUnreadFor_seen (target : String) (calls : List Call) (m : StoredMessage) :
    isUnreadFor target (m.seen calls) = (isUnreadFor target m && !calls.any (·.marks m)) := by
  rw [isUnreadFor, isUnreadFor, StoredMessage.seen, Bool.not_or, Bool.and_assoc]

/-- Of what is unread, some calls leave what they do not mark. -/
theorem unreadFor_map_seen (s : OfflineStore) (calls : List Call) (target : String) :
    unreadFor (s.map (StoredMessage.seen calls)) target
      = (s.unreadFor target).filter fun m => !calls.any (·.marks m) := by
  have hkept : isUnreadFor target ∘ StoredMessage.seen calls
      = fun m => (!calls.any (·.marks m)) && isUnreadFor target m :=
    funext fun m => (isUnreadFor_seen target calls m).trans (Bool.and_comm ..)
  rw [unreadFor, List.filter_map, hkept, unreadFor, List.filter_filter]
  refine (List.map_congr_left fun m hm => ?_).trans (List.map_id _)
  -- what is left unread has not been marked, so it is as it was
  obtain ⟨hmarks, -⟩ := Bool.and_eq_true_iff.1 (List.mem_filter.1 hm).2
  exact seen_of_not_marked (Bool.not_eq_eq_eq_not.1 hmarks)

theorem isRead_of_message? (h : call.message? = some m) : m.isRead = false := by
  cases call with
  | persist messageId sender recipient content now => exact Option.some.inj h ▸ rfl
  | markRead recipient ids => cases h

/-- **What is unread is what none of the later calls marks.** -/
theorem unreadFor_recorded (target : String) (calls : List Call) :
    (recorded calls).unreadFor target = outstanding target calls := by
  induction calls with
  | nil => rfl
  | cons call later ih =>
      have hbrought : unreadFor (call.message?.toList.map (StoredMessage.seen later)) target
          = (call.message?.filter fun m => m.target = target && !later.any (·.marks m)).toList := by
        -- what a call brings is unread, so that only the later calls decide
        rw [unreadFor_map_seen, unreadFor, List.filter_filter, Option.toList_filter]
        refine List.filter_congr fun m hm => ?_
        rw [isUnreadFor, isRead_of_message? (Option.mem_toList.1 hm), Bool.not_false,
          Bool.and_true, Bool.and_comm]
      rw [outstanding, ← ih, ← hbrought, recorded, Option.toList_map]
      exact List.filter_append ..

/-! ## Marking messages as read -/

theorem markRead_fst (s : OfflineStore) (target : String) (ids : List String) :
    (s.markRead target ids).1
      = ((s.unreadFor target).filter fun m => ids.contains m.messageId).length := by
  rw [markRead, List.countP_eq_length_filter, unreadFor, List.filter_filter]
  exact congrArg List.length (List.filter_congr fun m _ => Bool.and_comm ..)

/-- Where nothing is to be marked, nothing changes. -/
theorem markRead_of_not_marked (h : ∀ m ∈ s, isMarked target ids m = false) :
    s.markRead target ids = (0, s) := by
  have hcount : s.countP (isMarked target ids) = 0 :=
    List.countP_eq_zero.2 fun m hm => Bool.eq_false_iff.1 (h m hm)
  have hsame : s.map (fun m => if isMarked target ids m then { m with isRead := true } else m) = s :=
    (List.map_congr_left fun m hm => if_neg (Bool.eq_false_iff.1 (h m hm))).trans (List.map_id s)
  rw [markRead, hcount, hsame]

/-- What has been marked need not be marked again. -/
theorem markRead_markRead (s : OfflineStore) (target : String) (ids : List String) :
    (s.markRead target ids).2.markRead target ids = (0, (s.markRead target ids).2) := by
  refine markRead_of_not_marked fun m hm => ?_
  rw [markRead_snd] at hm
  obtain ⟨m, -, rfl⟩ := List.mem_map.1 hm
  have hmarks : (Call.markRead target ids).marks (m.seen [.markRead target ids])
      = (Call.markRead target ids).marks m := rfl
  rw [isMarked_eq, hmarks, StoredMessage.seen, List.any_cons, List.any_nil, Bool.or_false,
    Bool.not_or]
  cases (Call.markRead target ids).marks m with
  | true => rw [Bool.not_true, Bool.and_false, Bool.false_and]
  | false => rw [Bool.and_false]

/-! ## Pages -/

theorem pageSize_pos (limit : Nat) : 0 < pageSize limit := by
  rw [pageSize, maxPageSize]
  omega

theorem listUnread_zero (s : OfflineStore) (target : String) (limit : Nat) :
    s.listUnread target 0 limit = s.listUnread target 1 limit := rfl

/-- A page is a window of what is unread. -/
theorem listUnread_succ (s : OfflineStore) (target : String) (page limit : Nat) :
    s.listUnread target (page + 1) limit
      = window (pageSize limit) (s.unreadFor target) page := by
  rw [listUnread, pageStart, Nat.max_eq_right (Nat.le_add_left 1 page), Nat.add_sub_cancel]
  rfl

/-- The messages before a page can be counted with 64 bits. -/
theorem pageStart_lt (page limit : UInt32) : pageStart page.toNat limit.toNat < 2 ^ 64 := by
  have hpage := page.toNat_lt
  have hsize : pageSize limit.toNat ≤ 100 := Nat.min_le_right _ _
  calc pageStart page.toNat limit.toNat ≤ 2 ^ 32 * 100 := Nat.mul_le_mul (by omega) hsize
    _ < 2 ^ 64 := by decide

/-! ## After any calls -/

theorem after_empty (calls : List Call) : after [] calls = recorded calls := after_eq [] calls

/-- What a call leaves unread is what was unread, but for what it marks. -/
theorem unreadFor_markRead (s : OfflineStore) (target other : String) (ids : List String) :
    (s.markRead target ids).2.unreadFor other
      = (s.unreadFor other).filter fun m => !(Call.markRead target ids).marks m := by
  rw [markRead_snd, unreadFor_map_seen]
  simp only [List.any_cons, List.any_nil, Bool.or_false]

/-- What is unread for a target is for this target. -/
theorem target_of_mem_unreadFor (h : m ∈ s.unreadFor target) : m.target = target :=
  of_decide_eq_true (Bool.and_eq_true_iff.1 (List.mem_filter.1 h).2).1

/-- **The pages of a target are what is outstanding for it, cut into runs of the page size**, and a
message is outstanding from the call that brings it to the first that marks it. After any calls to an
empty store: what is unread for a target is what is outstanding for it. The pages from the first on,
as many as it fills, are cut from it; behind them there is nothing, and page zero is the first. The
messages before a page can be counted with 64 bits. To mark messages counts those that are outstanding
for the target and have one of the identities, and leaves the others of this target, all of other
targets, and those that were read before; to do it again does nothing. What the store holds is, but
for the marks, what the calls brought, and whatever comes later, every message keeps its place and is
read just if it was or has been marked. -/
theorem unread_of_calls (calls : List Call) :
    let s := after [] calls
    (∀ target, s.unreadFor target = outstanding target calls) ∧
    (∀ target limit,
      let size := min (max 1 limit) 100
      let last := (outstanding target calls).length ⌈/⌉ size
      IsCutInto size (outstanding target calls)
        ((List.range last).map fun n => s.listUnread target (n + 1) limit) ∧
      (∀ page, last < page → s.listUnread target page limit = []) ∧
      s.listUnread target 0 limit = s.listUnread target 1 limit) ∧
    (∀ page limit : UInt32, pageStart page.toNat limit.toNat < 2 ^ 64) ∧
    (∀ target ids,
      let marked := (s.markRead target ids).2
      (s.markRead target ids).1
        = ((outstanding target calls).filter fun m => ids.contains m.messageId).length ∧
      marked.unreadFor target
        = (outstanding target calls).filter (fun m => !ids.contains m.messageId) ∧
      (∀ other, other ≠ target → marked.unreadFor other = outstanding other calls) ∧
      (∀ (place : Nat) m, s[place]? = some m → m.isRead = true → marked[place]? = some m) ∧
      marked.markRead target ids = (0, marked)) ∧
    s.map (fun m => { m with isRead := false }) = calls.filterMap Call.message? ∧
    ∀ more (place : Nat) m, s[place]? = some m →
      (s.after more)[place]? = some { m with isRead := m.isRead || more.any (·.marks m) } := by
  intro s
  have hunread (target : String) : s.unreadFor target = outstanding target calls := by
    rw [← unreadFor_recorded, ← after_empty]
  refine ⟨hunread, fun target limit => ?_, pageStart_lt, fun target ids => ?_, ?_,
    fun more place m h => getElem?_after h⟩
  · have hpos := pageSize_pos limit
    refine ⟨?_, fun page hlast => ?_, listUnread_zero s target limit⟩
    · simp only [listUnread_succ, hunread]
      exact isCutInto_windows hpos _
    · obtain ⟨page, rfl⟩ := Nat.exists_eq_succ_of_ne_zero (Nat.ne_zero_of_lt hlast)
      rw [listUnread_succ, hunread]
      exact window_eq_nil hpos (Nat.le_of_lt_succ hlast)
  · refine ⟨?_, ?_, fun other hother => ?_, fun place m hplace hread => ?_,
      markRead_markRead s target ids⟩
    · rw [markRead_fst, hunread]
    · -- what is unread for the target is marked by the identities alone
      rw [unreadFor_markRead, ← hunread]
      refine List.filter_congr fun m hm => ?_
      rw [Call.marks, target_of_mem_unreadFor hm, decide_eq_true rfl, Bool.true_and]
    · rw [unreadFor_markRead, ← hunread]
      refine List.filter_eq_self.2 fun m hm => ?_
      rw [Call.marks, target_of_mem_unreadFor hm, decide_eq_false hother, Bool.false_and]
      rfl
    · rw [markRead_snd, List.getElem?_map, hplace]
      exact congrArg some (seen_of_isRead hread)
  · rw [show s = recorded calls from after_empty calls]
    exact map_unread_recorded calls

/-- Three messages with one identity for one target, of which the first is marked before the others
come, and one message for another target. -/
theorem unread_of_calls_alike :
    let calls : List Call :=
      [.persist "m1" "ann" "bob" "one" 1, .persist "m1" "ann" "cleo" "two" 2,
        .markRead "bob" ["m1"], .persist "m1" "ann" "bob" "three" 3,
        .persist "m2" "ann" "bob" "four" 4, .persist "m1" "ann" "bob" "five" 5]
    let s := after [] calls
    let message (messageId target content : String) (createdAt : Nat) : StoredMessage :=
      { messageId, sender := "ann", target, content, isRead := false, createdAt }
    outstanding "bob" calls = [message "m1" "bob" "three" 3, message "m2" "bob" "four" 4,
        message "m1" "bob" "five" 5] ∧
      (s.listUnread "bob" 1 2 ++ s.listUnread "bob" 2 2 = outstanding "bob" calls) ∧
      s.listUnread "bob" 3 2 = [] ∧ (s.markRead "bob" ["m1"]).1 = 2 ∧
      (s.markRead "bob" ["m1"]).2.unreadFor "cleo" = [message "m1" "cleo" "two" 2] ∧
      (s.markRead "bob" ["m1"]).2[0]? = some { message "m1" "bob" "one" 1 with isRead := true } ∧
      (s.after [.markRead "cleo" ["m1"]])[1]?
        = some { message "m1" "cleo" "two" 2 with isRead := true } := by
  intro calls s message
  have houtstanding : outstanding "bob" calls = [message "m1" "bob" "three" 3,
      message "m2" "bob" "four" 4, message "m1" "bob" "five" 5] := by decide +kernel
  obtain ⟨-, hpages, -, hmarked, -, hplaces⟩ := unread_of_calls calls
  obtain ⟨hcut, hbehind, -⟩ := hpages "bob" 2
  obtain ⟨hcount, -, hothers, hread, -⟩ := hmarked "bob" ["m1"]
  have hlast : (outstanding "bob" calls).length ⌈/⌉ min (max 1 2) 100 = 2 := by
    rw [houtstanding]
    decide
  rw [hlast] at hcut hbehind
  have hjoined := hcut.joined
  refine ⟨houtstanding, ?_, hbehind 3 (by decide), hcount.trans ?_, ?_, hread 0 _ rfl rfl,
    hplaces _ 1 _ rfl⟩
  · simpa [List.range_succ] using hjoined
  · decide +kernel
  · exact (hothers "cleo" (by decide)).trans (by decide +kernel)

end OfflineStore

end Switchboard
