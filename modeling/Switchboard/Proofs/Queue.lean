import Mathlib.Data.List.Infix
import Switchboard.Queue

/-!
# What a queue takes in and gives out

A queue is followed through any calls, and its `log` has each call with its answer. Two lists are read
off the log: what was `accepted` and what was `received`. As long as the receiver is there, what waits
makes up the difference (`items_append_accepted`): the items come out as they went in, each once. What
is refused depends on two things only, whether the receiver was stopped and how many items wait.
`fifo_of_calls` puts this together.
-/

namespace Switchboard

namespace Queue

variable {α : Type}

/-- What is done with a queue. -/
inductive Call (α : Type)
  /-- Somebody offers an item. Whoever does has the same queue as all the others. -/
  | offer (sender : Nat) (a : α)
  | receive
  /-- The receiver stops listening. -/
  | close
  /-- The receiver goes away. -/
  | drop
  deriving DecidableEq, Repr

/-- What comes of a call. -/
inductive Answer (α : Type)
  /-- The item was accepted, or it comes back. -/
  | offered (back : Option (Returned α))
  | received (receipt : Receipt α)
  | done
  deriving DecidableEq, Repr

def handle (q : Queue α) : Call α → Answer α × Queue α
  | .offer _ a => (.offered (q.put a).1, (q.put a).2)
  | .receive => (.received q.receive.1, q.receive.2)
  | .close => (.done, q.close)
  | .drop => (.done, q.drop)

/-- What a queue comes to after some calls. -/
def after (q : Queue α) (calls : List (Call α)) : Queue α :=
  calls.foldl (fun q call => (q.handle call).2) q

/-- Some calls, each with its answer. -/
def log : Queue α → List (Call α) → List (Call α × Answer α)
  | _, [] => []
  | q, call :: calls => (call, (q.handle call).1) :: log (q.handle call).2 calls

/-- The items that were accepted, in the order in which they were offered. -/
def accepted (log : List (Call α × Answer α)) : List α :=
  log.filterMap fun
    | (.offer _ a, .offered none) => some a
    | _ => none

/-- The items that were received, in this order. -/
def received (log : List (Call α × Answer α)) : List α :=
  log.filterMap fun
    | (_, .received (.item a)) => some a
    | _ => none

/-- Whether the receiver was closed or dropped by some calls. -/
def Stopped (calls : List (Call α)) : Prop := .close ∈ calls ∨ .drop ∈ calls

instance [DecidableEq α] (calls : List (Call α)) : Decidable (Stopped calls) :=
  inferInstanceAs (Decidable (_ ∨ _))

variable {q : Queue α} {call : Call α} {calls : List (Call α)} {a : α}

/-! ## Every call -/

theorem after_cons (q : Queue α) (call : Call α) (calls : List (Call α)) :
    q.after (call :: calls) = (q.handle call).2.after calls := rfl

theorem accepted_cons (entry : Call α × Answer α) (log : List (Call α × Answer α)) :
    accepted (entry :: log) = accepted [entry] ++ accepted log :=
  List.filterMap_append (l := [entry])

theorem received_cons (entry : Call α × Answer α) (log : List (Call α × Answer α)) :
    received (entry :: log) = received [entry] ++ received log :=
  List.filterMap_append (l := [entry])

/-- An offer is refused when the receiver was stopped, else when there is no room; the item comes back
and nothing has changed. Else the item goes to the end. -/
theorem put_cases (q : Queue α) (a : α) :
    (q.intake ≠ .listening ∧ q.put a = (some ⟨.closed, a⟩, q)) ∨
    (q.intake = .listening ∧ q.depth = q.capacity ∧ q.put a = (some ⟨.full, a⟩, q)) ∨
    (q.intake = .listening ∧ q.depth < q.capacity ∧ (q.put a).1 = none ∧
      (q.put a).2.items = q.items ++ [a] ∧ (q.put a).2.intake = q.intake ∧
      (q.put a).2.capacity = q.capacity) := by
  by_cases hlistening : q.intake = .listening
  · by_cases hroom : q.items.length < q.capacity
    · have hoffer : q.offer a = .ok { q with
          items := q.items ++ [a]
          bounded := by rw [List.length_append]; exact hroom } := by
        rw [offer, if_neg fun h => h hlistening, dif_pos hroom]
      rw [put, hoffer]
      exact Or.inr (Or.inr ⟨hlistening, hroom, rfl, rfl, rfl, rfl⟩)
    · have hoffer : q.offer a = .error .full := by
        rw [offer, if_neg fun h => h hlistening, dif_neg hroom]
      rw [put, hoffer]
      have hfull : q.depth = q.capacity := Nat.le_antisymm q.bounded (Nat.not_lt.1 hroom)
      exact Or.inr (Or.inl ⟨hlistening, hfull, rfl⟩)
  · have hoffer : q.offer a = .error .closed := by rw [offer, if_pos hlistening]
    rw [put, hoffer]
    exact Or.inl ⟨hlistening, rfl⟩

/-- A receiver that is there finds the oldest item. If nothing waits it finds nothing, and something
can come only if it still listens. -/
theorem receive_cases (q : Queue α) :
    (q.intake = .dropped ∧ q.receive = (.dropped, q)) ∨
    (q.intake ≠ .dropped ∧ ∃ a rest, q.items = a :: rest ∧ q.receive.1 = .item a ∧
      q.receive.2.items = rest ∧ q.receive.2.intake = q.intake ∧
      q.receive.2.capacity = q.capacity) ∨
    (q.intake = .listening ∧ q.items = [] ∧ q.receive = (.empty, q)) ∨
    (q.intake = .closed ∧ q.items = [] ∧ q.receive = (.disconnected, q)) := by
  -- opened, so that receiving computes in every case
  obtain ⟨capacity, items, intake, hpos, hbounded⟩ := q
  cases intake with
  | dropped => exact Or.inl ⟨rfl, rfl⟩
  | listening =>
      cases items with
      | nil => exact Or.inr (Or.inr (Or.inl ⟨rfl, rfl, rfl⟩))
      | cons a rest =>
          exact Or.inr (Or.inl ⟨Intake.noConfusion, a, rest, rfl, rfl, rfl, rfl, rfl⟩)
  | closed =>
      cases items with
      | nil => exact Or.inr (Or.inr (Or.inr ⟨rfl, rfl, rfl⟩))
      | cons a rest =>
          exact Or.inr (Or.inl ⟨Intake.noConfusion, a, rest, rfl, rfl, rfl, rfl, rfl⟩)

/-- What comes of an offer, and when. -/
theorem handle_offer (q : Queue α) (sender : Nat) (a : α) :
    let answer := (q.handle (.offer sender a)).1
    (answer = .offered (some ⟨.closed, a⟩) ↔ q.intake ≠ .listening) ∧
    (answer = .offered (some ⟨.full, a⟩) ↔ q.intake = .listening ∧ q.depth = q.capacity) ∧
    (answer = .offered none ↔ q.intake = .listening ∧ q.depth < q.capacity) ∧
    (answer ≠ .offered none → (q.handle (.offer sender a)).2 = q) := by
  intro answer
  have hanswer : answer = .offered (q.put a).1 := rfl
  rcases put_cases q a with ⟨hstopped, hput⟩ | ⟨hlistening, hfull, hput⟩ |
    ⟨hlistening, hroom, hput, -⟩
  · rw [hanswer, hput]
    exact ⟨iff_of_true rfl hstopped, iff_of_false nofun fun h => hstopped h.1,
      iff_of_false nofun fun h => hstopped h.1, fun _ => congrArg Prod.snd hput⟩
  · rw [hanswer, hput]
    exact ⟨iff_of_false nofun fun h => h hlistening, iff_of_true rfl ⟨hlistening, hfull⟩,
      iff_of_false nofun fun h => Nat.ne_of_lt h.2 hfull, fun _ => congrArg Prod.snd hput⟩
  · rw [hanswer, hput]
    exact ⟨iff_of_false nofun fun h => h hlistening,
      iff_of_false nofun fun h => Nat.ne_of_lt hroom h.2, iff_of_true rfl ⟨hlistening, hroom⟩,
      fun h => absurd rfl h⟩

/-- What the receiver gets, and when. -/
theorem handle_receive (q : Queue α) :
    (∀ a, (q.handle .receive).1 = .received (.item a)
      ↔ q.intake ≠ .dropped ∧ q.items.head? = some a) ∧
    ((q.handle .receive).1 = .received .empty ↔ q.intake = .listening ∧ q.items = []) := by
  rw [handle]
  rcases receive_cases q with ⟨hintake, h⟩ | ⟨hintake, a, rest, hitems, h, -⟩ |
    ⟨hintake, hitems, h⟩ | ⟨hintake, hitems, h⟩
  · rw [h, hintake]
    exact ⟨fun a => iff_of_false nofun fun h => h.1 rfl, iff_of_false nofun fun h => nomatch h.1⟩
  · rw [h, hitems]
    refine ⟨fun b => ⟨fun hb => ⟨hintake, ?_⟩, fun hb => ?_⟩, iff_of_false nofun fun h => nomatch h.2⟩
    · exact congrArg some (Receipt.item.inj (Answer.received.inj hb))
    · exact congrArg (fun a => Answer.received (Receipt.item a)) (Option.some.inj hb.2)
  · rw [h, hintake, hitems]
    exact ⟨fun a => iff_of_false nofun fun h => (nomatch h.2), iff_of_true rfl ⟨rfl, rfl⟩⟩
  · rw [h, hintake, hitems]
    exact ⟨fun a => iff_of_false nofun fun h => (nomatch h.2), iff_of_false nofun fun h => nomatch h.1⟩

theorem receive_of_nil (hintake : q.intake = .closed) (hitems : q.items = []) :
    q.receive = (.disconnected, q) := by
  rcases receive_cases q with ⟨h, -⟩ | ⟨-, a, rest, h, -⟩ | ⟨h, -⟩ | ⟨-, -, h⟩
  · rw [hintake] at h
    cases h
  · rw [hitems] at h
    cases h
  · rw [hintake] at h
    cases h
  · exact h

theorem receive_of_cons {rest : List α} (hintake : q.intake ≠ .dropped)
    (hitems : q.items = a :: rest) :
    q.receive.1 = .item a ∧ q.receive.2.items = rest ∧ q.receive.2.intake = q.intake := by
  rcases receive_cases q with ⟨h, -⟩ | ⟨-, a', rest', h, hitem, hrest, hsame, -⟩ | ⟨-, h, -⟩ |
    ⟨-, h, -⟩
  · exact absurd h hintake
  · obtain ⟨rfl, rfl⟩ := List.cons_eq_cons.1 (hitems.symm.trans h)
    exact ⟨hitem, hrest, hsame⟩
  · rw [hitems] at h
    cases h
  · rw [hitems] at h
    cases h

/-- No call changes the capacity. Only two do anything to the receiver, and one that is gone does not
come back. -/
theorem handle_snd (q : Queue α) (call : Call α) :
    (q.handle call).2.capacity = q.capacity ∧ (q.handle call).2.intake =
      match call with
      | .offer .. => q.intake
      | .receive => q.intake
      | .close => if q.intake = .listening then .closed else q.intake
      | .drop => .dropped := by
  cases call with
  | offer sender a =>
      show (q.put a).2.capacity = q.capacity ∧ (q.put a).2.intake = q.intake
      rcases put_cases q a with ⟨-, h⟩ | ⟨-, -, h⟩ | ⟨-, -, -, -, hintake, hcapacity⟩
      · rw [h]
        exact ⟨rfl, rfl⟩
      · rw [h]
        exact ⟨rfl, rfl⟩
      · exact ⟨hcapacity, hintake⟩
  | receive =>
      show q.receive.2.capacity = q.capacity ∧ q.receive.2.intake = q.intake
      rcases receive_cases q with ⟨-, h⟩ | ⟨-, a, rest, -, -, -, hintake, hcapacity⟩ |
        ⟨-, -, h⟩ | ⟨-, -, h⟩
      · rw [h]
        exact ⟨rfl, rfl⟩
      · exact ⟨hcapacity, hintake⟩
      · rw [h]
        exact ⟨rfl, rfl⟩
      · rw [h]
        exact ⟨rfl, rfl⟩
  | close =>
      show q.close.capacity = q.capacity ∧ q.close.intake = _
      rw [close]
      split
      · exact ⟨rfl, rfl⟩
      · exact ⟨rfl, rfl⟩
  | drop => exact ⟨rfl, rfl⟩

/-- What waits and what a call brings is what it takes and what waits then, unless the receiver is
dropped. -/
theorem items_handle (hcall : call ≠ .drop) :
    q.items ++ accepted [(call, (q.handle call).1)]
      = received [(call, (q.handle call).1)] ++ (q.handle call).2.items := by
  cases call with
  | offer sender a =>
      show q.items ++ accepted [(.offer sender a, .offered (q.put a).1)] = (q.put a).2.items
      rcases put_cases q a with ⟨-, h⟩ | ⟨-, -, h⟩ | ⟨-, -, hnone, hitems, -, -⟩
      · -- refused, so nothing was accepted and nothing is new
        rw [h]
        exact List.append_nil _
      · rw [h]
        exact List.append_nil _
      · rw [hnone, hitems]
        rfl
  | receive =>
      show q.items ++ [] = received [(.receive, .received q.receive.1)] ++ q.receive.2.items
      rw [List.append_nil]
      rcases receive_cases q with ⟨-, h⟩ | ⟨-, a, rest, hq, hitem, hrest, -, -⟩ | ⟨-, -, h⟩ |
        ⟨-, -, h⟩
      · rw [h]
        rfl
      · rw [hitem, hrest, hq]
        rfl
      · rw [h]
        rfl
      · rw [h]
        rfl
  | close =>
      show q.items ++ [] = q.close.items
      rw [List.append_nil, close]
      split
      · rfl
      · rfl
  | drop => exact absurd rfl hcall

/-! ## Any calls -/

theorem capacity_after (q : Queue α) (calls : List (Call α)) :
    (q.after calls).capacity = q.capacity := by
  induction calls generalizing q with
  | nil => rfl
  | cons call calls ih => rw [after_cons, ih, (q.handle_snd call).1]

/-- The receiver is gone if it was or if one of the calls drops it. -/
theorem intake_after_eq_dropped (q : Queue α) (calls : List (Call α)) :
    (q.after calls).intake = .dropped ↔ q.intake = .dropped ∨ .drop ∈ calls := by
  induction calls generalizing q with
  | nil => exact ⟨Or.inl, fun h => h.resolve_right List.not_mem_nil⟩
  | cons call calls ih =>
      rw [after_cons, ih, (q.handle_snd call).2, List.mem_cons, ← or_assoc]
      refine or_congr_left ?_
      -- only a call that drops the receiver is new
      cases call with
      | offer sender a => simp
      | receive => simp
      | close =>
          cases q.intake with
          | listening => simp
          | closed => simp
          | dropped => simp
      | drop => simp

/-- The receiver listens as long as none of the calls stops it. -/
theorem intake_after_eq_listening (q : Queue α) (calls : List (Call α)) :
    (q.after calls).intake = .listening ↔ q.intake = .listening ∧ ¬ Stopped calls := by
  induction calls generalizing q with
  | nil => exact ⟨fun h => ⟨h, fun hstopped => hstopped.elim nofun nofun⟩, And.left⟩
  | cons call calls ih =>
      rw [after_cons, ih, (q.handle_snd call).2, Stopped, Stopped, List.mem_cons, List.mem_cons]
      cases call with
      | offer sender a => simp
      | receive => simp
      | close =>
          cases q.intake with
          | listening => simp
          | closed => simp
          | dropped => simp
      | drop => simp

/-- **As long as the receiver is there, nothing is lost, doubled or put in another order**: what waited
and what was accepted is what was received and what waits now. -/
theorem items_append_accepted (h : .drop ∉ calls) :
    q.items ++ accepted (q.log calls) = received (q.log calls) ++ (q.after calls).items := by
  -- on the calls; each of them moves the boundary between what came out and what waits
  induction calls generalizing q with
  | nil => exact List.append_nil _
  | cons call calls ih =>
      obtain ⟨hcall, hcalls⟩ := List.ne_and_not_mem_of_not_mem_cons h
      rw [log, accepted_cons, received_cons, after_cons, ← List.append_assoc,
        items_handle hcall.symm, List.append_assoc, ih hcalls, List.append_assoc]

/-- A queue whose receiver is gone takes nothing and gives nothing. -/
theorem log_of_dropped (h : q.intake = .dropped) (calls : List (Call α)) :
    received (q.log calls) = [] := by
  induction calls generalizing q with
  | nil => rfl
  | cons call calls ih =>
      have hthen : (q.handle call).2.intake = .dropped :=
        (intake_after_eq_dropped q [call]).2 (Or.inl h)
      rw [log, received_cons, ih hthen, List.append_nil]
      cases call with
      | receive =>
          have hreceive : q.receive = (.dropped, q) := by rw [receive, h]
          show received [(.receive, .received q.receive.1)] = []
          rw [hreceive]
          rfl
      | offer sender a => rfl
      | close => rfl
      | drop => rfl

/-- What is received is the beginning of what waited and was accepted, whatever becomes of the
receiver. -/
theorem isPrefix_received (q : Queue α) (calls : List (Call α)) :
    received (q.log calls) <+: q.items ++ accepted (q.log calls) := by
  induction calls generalizing q with
  | nil => exact List.nil_prefix
  | cons call calls ih =>
      rw [log, accepted_cons, received_cons, ← List.append_assoc]
      by_cases hcall : call = .drop
      · subst hcall
        -- nothing is received any more
        have hrest := log_of_dropped (q := (q.handle .drop).2) rfl calls
        rw [hrest]
        exact List.nil_prefix
      · rw [items_handle hcall, List.append_assoc]
        exact List.prefix_append_right_inj _ |>.2 (ih _)

theorem items_handle_of_dropped (hnone : q.intake = .dropped → q.items = [])
    (h : (q.handle call).2.intake = .dropped) : (q.handle call).2.items = [] := by
  cases call with
  | offer sender a =>
      change (q.put a).2.intake = .dropped at h
      show (q.put a).2.items = []
      rcases put_cases q a with ⟨-, hput⟩ | ⟨-, -, hput⟩ | ⟨hlistening, -, -, -, hsame, -⟩
      · rw [hput] at h ⊢
        exact hnone h
      · rw [hput] at h ⊢
        exact hnone h
      · -- it listens still
        rw [hsame, hlistening] at h
        cases h
  | receive =>
      change q.receive.2.intake = .dropped at h
      show q.receive.2.items = []
      rcases receive_cases q with ⟨hdropped, hreceive⟩ | ⟨hthere, a, rest, -, -, -, hsame, -⟩ |
        ⟨-, hitems, hreceive⟩ | ⟨-, hitems, hreceive⟩
      · rw [hreceive]
        exact hnone hdropped
      · exact absurd (hsame.symm.trans h) hthere
      · rw [hreceive]
        exact hitems
      · rw [hreceive]
        exact hitems
  | close =>
      change q.close.intake = .dropped at h
      show q.close.items = []
      rw [close] at h ⊢
      split at h
      · cases h
      · rw [if_neg ‹_›]
        exact hnone h
  | drop => rfl

/-- What waits when the receiver goes away goes with it. -/
theorem items_of_dropped (hnone : q.intake = .dropped → q.items = [])
    (h : (q.after calls).intake = .dropped) : (q.after calls).items = [] := by
  induction calls generalizing q with
  | nil => exact hnone h
  | cons call calls ih => exact ih (items_handle_of_dropped hnone) h

/-! ## A new queue -/

theorem items_of_new {capacity : Nat} (h : .drop ∉ calls) :
    ((new capacity : Queue α).after calls).items
      = (accepted ((new capacity : Queue α).log calls)).drop
          (received ((new capacity : Queue α).log calls)).length := by
  have hitems := items_append_accepted (q := new capacity) h
  have haccepted : accepted ((new capacity : Queue α).log calls)
      = received ((new capacity : Queue α).log calls)
        ++ ((new capacity : Queue α).after calls).items := hitems
  rw [haccepted, List.drop_left]

theorem depth_of_new {capacity : Nat} (h : .drop ∉ calls) :
    ((new capacity : Queue α).after calls).depth
      = (accepted ((new capacity : Queue α).log calls)).length
        - (received ((new capacity : Queue α).log calls)).length := by
  rw [depth, items_of_new h, List.length_drop]

theorem stopped_iff {capacity : Nat} :
    ((new capacity : Queue α).after calls).intake ≠ .listening ↔ Stopped calls := by
  rw [Ne, intake_after_eq_listening]
  exact ⟨fun h => Classical.not_not.1 fun hnot => h ⟨rfl, hnot⟩, fun h hboth => hboth.2 h⟩

theorem dropped_iff {capacity : Nat} :
    ((new capacity : Queue α).after calls).intake = .dropped ↔ .drop ∈ calls :=
  (intake_after_eq_dropped _ calls).trans (or_iff_right Intake.noConfusion)

/-- A receiver that listens no more takes all that waits, and then hears that nothing will come. -/
theorem log_receive_of_closed (h : q.intake = .closed) (n : Nat) :
    (q.log (List.replicate (q.depth + n) .receive)).map Prod.snd
      = q.items.map (fun a => .received (.item a)) ++ List.replicate n (.received .disconnected) := by
  -- on what waits: each of the first calls takes one item, the others none
  obtain ⟨items, hitems⟩ : ∃ items, q.items = items := ⟨_, rfl⟩
  rw [depth, hitems]
  induction items generalizing q with
  | nil =>
      have hstep : q.handle .receive = (.received .disconnected, q) := by
        rw [handle, receive_of_nil h hitems]
      rw [List.length_nil, Nat.zero_add, List.map_nil, List.nil_append]
      induction n with
      | zero => rfl
      | succ n ih =>
          rw [List.replicate_succ, List.replicate_succ, log, hstep, List.map_cons, ih]
  | cons a rest ih =>
      obtain ⟨hitem, hrest, hsame⟩ := receive_of_cons (by rw [h]; exact Intake.noConfusion) hitems
      have hcount : (a :: rest).length + n = rest.length + n + 1 := by
        rw [List.length_cons]
        omega
      rw [hcount, List.replicate_succ, log, List.map_cons, List.map_cons, List.cons_append]
      exact congrArg₂ List.cons (congrArg Answer.received hitem) (ih (hsame.trans h) hrest)

/-- **A queue gives out what it takes in, in this order and each item once.** After any calls to a new
queue, through whoever offers: what was received is the beginning of what was accepted. At most
`capacity` items wait, one at least having room: as long as the receiver is there, those that were
accepted and not received yet; none when it is gone. An offer is refused as closed just when the
receiver was closed or dropped before, else as full just when so many items wait; the very item comes
back, and nothing has changed. The receiver gets the oldest item that was accepted and not received,
and finds the queue empty only if there is none. Once it was closed it can still get all of them, and
then it hears that nothing will come. -/
theorem fifo_of_calls (capacity : Nat) (calls : List (Call α)) :
    let start : Queue α := .new capacity
    let q := start.after calls
    let accepted := accepted (start.log calls)
    let received := received (start.log calls)
    received <+: accepted ∧
    q.depth ≤ max 1 capacity ∧
    (.drop ∉ calls → q.depth = accepted.length - received.length) ∧
    (.drop ∈ calls → q.depth = 0) ∧
    (∀ sender a,
      let answer := (q.handle (.offer sender a)).1
      (answer = .offered (some ⟨.closed, a⟩) ↔ Stopped calls) ∧
      (answer = .offered (some ⟨.full, a⟩) ↔ ¬ Stopped calls ∧ q.depth = max 1 capacity) ∧
      (answer = .offered none ↔ ¬ Stopped calls ∧ q.depth < max 1 capacity) ∧
      (answer ≠ .offered none → (q.handle (.offer sender a)).2 = q)) ∧
    (∀ a, (q.handle .receive).1 = .received (.item a)
      ↔ .drop ∉ calls ∧ accepted[received.length]? = some a) ∧
    ((q.handle .receive).1 = .received .empty ↔ ¬ Stopped calls ∧ q.depth = 0) ∧
    (.close ∈ calls → .drop ∉ calls → ∀ n,
      (q.log (List.replicate (q.depth + n) .receive)).map Prod.snd
        = (accepted.drop received.length).map (fun a => .received (.item a))
          ++ List.replicate n (.received .disconnected)) := by
  intro start q accepted received
  have hcapacity : q.capacity = max 1 capacity := capacity_after start calls
  have hlistening : q.intake = .listening ↔ ¬ Stopped calls :=
    (intake_after_eq_listening start calls).trans (and_iff_right rfl)
  refine ⟨isPrefix_received start calls, hcapacity ▸ q.bounded, depth_of_new, fun hdrop => ?_,
    fun sender a => ?_, fun a => ?_, ?_, fun hclose hdrop n => ?_⟩
  · exact List.length_eq_zero_iff.2 (items_of_dropped (fun _ => rfl) (dropped_iff.2 hdrop))
  · obtain ⟨hclosed, hfull, hnone, hsame⟩ := q.handle_offer sender a
    rw [hcapacity, hlistening] at hfull hnone
    exact ⟨hclosed.trans stopped_iff, hfull, hnone, hsame⟩
  · rw [q.handle_receive.1, Ne, dropped_iff]
    refine and_congr_right fun hdrop => ?_
    rw [items_of_new hdrop, List.head?_drop]
  · rw [q.handle_receive.2, hlistening, depth, List.length_eq_zero_iff]
  · have hclosed : q.intake = .closed := by
      have hstopped : q.intake ≠ .listening := stopped_iff.2 (Or.inl hclose)
      have hthere : q.intake ≠ .dropped := fun h => hdrop (dropped_iff.1 h)
      cases hintake : q.intake with
      | listening => exact absurd hintake hstopped
      | closed => rfl
      | dropped => exact absurd hintake hthere
    rw [log_receive_of_closed hclosed, items_of_new hdrop]

/-- A queue with room for two takes three of four items, gives one out, and is closed: the other two
can still be received. When its receiver is dropped instead, they are gone. -/
theorem fifo_of_calls_closed :
    let calls : List (Call Nat) :=
      [.offer 0 7, .offer 1 7, .offer 0 8, .receive, .offer 2 9]
    let start : Queue Nat := .new 2
    let q := start.after calls
    accepted (start.log calls) = [7, 7, 9] ∧ received (start.log calls) = [7] ∧ q.depth = 2 ∧
      (q.handle (.offer 1 5)).1 = .offered (some ⟨.full, 5⟩) ∧
      ((start.after (calls ++ [.close])).handle (.offer 1 5)).1 = .offered (some ⟨.closed, 5⟩) ∧
      ((start.after (calls ++ [.close])).log (List.replicate 3 .receive)).map Prod.snd
        = [.received (.item 7), .received (.item 9), .received .disconnected] ∧
      (start.after (calls ++ [.drop])).depth = 0 := by
  intro calls start q
  obtain ⟨-, -, hdepth, -, hoffer, -⟩ := fifo_of_calls 2 calls
  obtain ⟨-, -, -, -, hclosed, -, -, hdrained⟩ := fifo_of_calls 2 (calls ++ [.close])
  obtain ⟨-, -, -, hdropped, -⟩ := fifo_of_calls 2 (calls ++ [.drop])
  have hcount : q.depth = 2 := (hdepth (by decide)).trans (by decide)
  refine ⟨by decide, by decide, hcount, (hoffer 1 5).2.1.2 ⟨by decide, hcount⟩,
    (hclosed 1 5).1.2 (Or.inl (by decide)), ?_, hdropped (by decide)⟩
  exact (hdrained (by decide) (by decide) 1).trans (by decide)

end Queue

end Switchboard
