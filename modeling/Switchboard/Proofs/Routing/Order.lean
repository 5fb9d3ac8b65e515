import Mathlib.Data.List.Perm.Basic
import Switchboard.Proofs.Routing.Bringing
import Switchboard.Proofs.Routing.Direct
import Switchboard.Proofs.Routing.Following

/-!
# Messages stay in order

Messages that one shard takes in for a target are followed to the connection of the target. Each of
them waits to be routed until its frames go to the connection, or come into the forward queue of the
shard that has it; from there they are queued and written. What is on this way is `Lined`: one
processor a shard keeps all of it in the order in which the messages were taken in, and any number of
them never double a frame (`lined_move`). So the frames come in order, but for those that got lost at
queues that were full (`ordered_of_moves`). Several processors may finish in any order, and a notice
takes another way, so there neither waits for the other (`not_ordered`).
-/

namespace Switchboard

namespace Trail

/-- The number of a message that waits to be routed. -/
def inboundNumber (item : Nat × Task) : Option Nat :=
  if item.2.origin = .inbound then some item.1 else none

/-- The frame of a message that was handed over, with its number. -/
def forwardedFrame (item : Nat × Task) : Option (Nat × Bytes) :=
  if item.2.origin = .inbound then none else some (item.1, item.2.raw)

def handedFrame (item : Nat × Handover) : Nat × Bytes := (item.1, item.2.frame)

/-- The numbers of the messages that wait to be routed. -/
def unrouted (t : Trail) : List Nat := (followed t.tasks).filterMap inboundNumber

/-- The frames of messages on their way to connections of the shard, the first one to arrive first. -/
def underway (t : Trail) : List (Nat × Bytes) :=
  (followed t.tasks).filterMap forwardedFrame ++ (followed t.forward).map handedFrame

variable {t t' : Trail}

theorem Spares.unrouted (h : t.Spares t') : t'.unrouted = t.unrouted :=
  congrArg (List.filterMap inboundNumber) h.tasks

theorem Spares.underway (h : t.Spares t') : t'.underway = t.underway := by
  rw [Trail.underway, Trail.underway, h.tasks, h.forward]

/-- Frames that are handed over come behind everything that is underway. -/
theorem underway_add (t : Trail) (n : Nat) (target : String) (frames : List Bytes) :
    (t.add (some n) [] (frames.map (Handover.mk target))).underway
      = t.underway ++ frames.map (Prod.mk n) := by
  rw [underway, followed_tasks_add, followed_forward_add, List.map_nil, List.append_nil,
    List.map_append, List.map_map, List.map_map, ← List.append_assoc]
  rfl

end Trail

namespace Pursuit

open Trail Exchange

variable {w w' : Pursuit} {m : Move}

/-! ## What came to a connection -/

/-- The frames that a move brings to the connection of a session, with the number of what it
handles. -/
def gained (w : Pursuit) (session : Session) (m : Move) : List (Option Nat × Bytes) :=
  (((w.result m).waiting session).drop (w.exchange.waiting session).length).map
    (Prod.mk (w.label m))

/-- The frames that come to the connection of a session, in the order in which they come. -/
def received (session : Session) : Pursuit → List Move → List (Option Nat × Bytes)
  | _, [] => []
  | w, m :: moves => w.gained session m ++ received session (w.move m) moves

theorem gained_of_waiting {session : Session} {frames : List Bytes}
    (h : (w.result m).waiting session = w.exchange.waiting session ++ frames) :
    w.gained session m = frames.map (Prod.mk (w.label m)) := by
  rw [gained, h, List.drop_left]

/-- What waits at a connection has come to it, or waited there before. -/
theorem waiting_move (hw : w.Faithful) (hm : w.Possible m) (session : Session) :
    (w.move m).exchange.waiting session
      <:+ w.exchange.waiting session ++ (w.gained session m).map Prod.snd := by
  have hkeyed := Exchange.keyed_of_connections (connections_lifted w m) hw.keyed
  have hlifted := waiting_lifted w m session
  -- what is put in comes last, and what is taken out goes first
  obtain ⟨-, hgrows | hsheds⟩ := respects_lifted hm hkeyed
  · obtain ⟨frames, hframes⟩ := hgrows.waiting session
    have hresult : (w.result m).waiting session = w.exchange.waiting session ++ frames := by
      rw [← hlifted]
      exact hframes.symm
    rw [gained_of_waiting hresult, List.map_map]
    show (w.result m).waiting session <:+ _
    rw [hresult]
    simp [Function.comp_def]
  · have hless : (w.result m).waiting session <:+ w.exchange.waiting session :=
      hlifted ▸ hsheds.waiting session
    rw [gained, List.drop_of_length_le hless.length_le, List.map_nil, List.map_nil,
      List.append_nil]
    exact hless

theorem gained_of_queued {shard : Nat} {tasks : List Task}
    (h : Exchange.Queued shard tasks (w.lifted m) (w.result m)) (session : Session) :
    w.gained session m = [] := by
  have hwaiting : (w.result m).waiting session = w.exchange.waiting session ++ [] := by
    rw [h.waiting, waiting_lifted, List.append_nil]
  rw [gained_of_waiting hwaiting, List.map_nil]

theorem gained_hand (w : Pursuit) (session : Session) (shard : Nat) (e : Envelope) (raw : Bytes) :
    w.gained session (.hand shard e raw) = [] := by
  rcases w.exchange.queued_submit shard { envelope := e, raw, origin := .inbound } with
    ⟨-, hqueued⟩ | ⟨-, hqueued⟩
  · exact gained_of_queued (m := .hand shard e raw) hqueued session
  · exact gained_of_queued (m := .hand shard e raw) hqueued session

theorem gained_relay (w : Pursuit) (session : Session) (shard : Nat) :
    w.gained session (.act (.relay shard)) = [] := by
  cases hforward : (w.exchange.traffic shard).forward with
  | nil =>
      have hsame : (w.result (.act (.relay shard))).waiting session
          = w.exchange.waiting session ++ [] := by
        show (w.exchange.relay shard).waiting session = _
        rw [Exchange.relay_of_nil hforward, List.append_nil]
      rw [gained_of_waiting hsame, List.map_nil]
  | cons handover rest =>
      obtain ⟨tasks, -, hqueued⟩ :=
        (w.exchange.draw shard).queued_enqueue shard handover.frame handover.target
      rw [← Exchange.relay_of_forward hforward] at hqueued
      exact gained_of_queued (m := .act (.relay shard)) hqueued session

/-! ## In line -/

/-- Where a message that is followed may be: it waits to be routed at the shard it came in at, or its
frames have been handed over to the shard of its target, if this is another one. -/
structure Placed (home owner : Nat) (target : String) (accepted : List (Envelope × Bytes))
    (id : Nat) (t : Trail) : Prop where
  tasks : ∀ n task, (n, task) ∈ followed t.tasks →
    (id = home ∧ task.origin = .inbound ∧ accepted[n]? = some (task.envelope, task.raw)) ∨
    (id = owner ∧ home ≠ owner ∧ task.origin = .forwarded target)
  forward : ∀ n handover, (n, handover) ∈ followed t.forward →
    id = owner ∧ home ≠ owner ∧ handover.target = target

/-- The frames of messages, one message after another. -/
def numbered (frames : Nat → List Bytes) (order : List Nat) : List (Nat × Bytes) :=
  order.flatMap fun n => (frames n).map (Prod.mk n)

/-- How far messages have come that one shard takes in for a target, where some were routed, in some
order, and made into frames: each of the others waits to be routed, and of the frames each that is not
lost has arrived or is underway, once. With one processor everything is in line. -/
structure Lined (home owner : Nat) (target : String) (arrived : List (Nat × Bytes))
    (routed : List Nat) (frames : Nat → List Bytes) (w : Pursuit) : Prop where
  busy : ∀ id, (w.trail id).inHand.length ≤ w.exchange.processors
  placed : ∀ id, Placed home owner target w.accepted id (w.trail id)
  meant : ∀ e raw, (e, raw) ∈ w.accepted → e.recipient = target ∧ e.deliveryKind = .direct
  made : ∀ n (e : Envelope) raw, w.accepted[n]? = some (e, raw) →
    e.MadeInto w.exchange.config.fragment.limits raw (frames n)
  unsent : ∀ n, n ∉ routed → frames n = []
  unrouted : (routed ++ (w.trail home).unrouted).Perm (List.range w.accepted.length)
  underway : (arrived ++ (w.trail owner).underway).Subperm (numbered frames routed)
  single : w.exchange.processors = 1 →
    routed ++ (w.trail home).unrouted = List.range w.accepted.length ∧
    (arrived ++ (w.trail owner).underway).Sublist (numbered frames routed)

variable {home owner : Nat} {target : String} {session : Session} {arrived : List (Nat × Bytes)}
  {routed : List Nat} {frames : Nat → List Bytes}

/-- Processors take nothing while they are all busy. -/
theorem busy_move (h : ∀ id, (w.trail id).inHand.length ≤ w.exchange.processors) (m : Move)
    (id : Nat) : ((w.move m).trail id).inHand.length ≤ w.exchange.processors := by
  show (w.lift m id).inHand.length ≤ _
  -- only a processor that takes a task can make a shard busier
  rcases w.lift_cases m id with heq | ⟨hfree, heq⟩ | ⟨-, heq⟩ | ⟨slot, -, heq⟩
  · rw [heq]
    exact h id
  · have hone : (w.trail id).work.head?.toList.length ≤ 1 := by
      cases (w.trail id).work with
      | nil => exact Nat.zero_le 1
      | cons task rest => exact Nat.le_refl 1
    rw [heq, List.length_append]
    omega
  · rw [heq]
    exact h id
  · rw [heq]
    exact Nat.le_trans (List.length_eraseIdx_le ..) (h id)

theorem placed_lift (h : Lined home owner target arrived routed frames w) (m : Move) (id : Nat) :
    Placed home owner target w.accepted id (w.lift m id) where
  tasks n task hmem :=
    (h.placed id).tasks n task ((w.followed_lift_sublist m id).1.subset hmem)
  forward n handover hmem :=
    (h.placed id).forward n handover ((w.followed_lift_sublist m id).2.subset hmem)

theorem Placed.add {accepted : List (Envelope × Bytes)} {id n : Nat} {t : Trail}
    {tasks : List Task} {handovers : List Handover} (h : Placed home owner target accepted id t)
    (htasks : ∀ task ∈ tasks,
      (id = home ∧ task.origin = .inbound ∧ accepted[n]? = some (task.envelope, task.raw)) ∨
      (id = owner ∧ home ≠ owner ∧ task.origin = .forwarded target))
    (hforward : ∀ handover ∈ handovers, id = owner ∧ home ≠ owner ∧ handover.target = target) :
    Placed home owner target accepted id (t.add (some n) tasks handovers) where
  tasks n' task hmem := by
    rw [followed_tasks_add] at hmem
    rcases List.mem_append.1 hmem with hmem | hmem
    · exact h.tasks n' task hmem
    · obtain ⟨_, htask, heq⟩ := List.mem_map.1 hmem
      cases heq
      exact htasks task htask
  forward n' handover hmem := by
    rw [followed_forward_add] at hmem
    rcases List.mem_append.1 hmem with hmem | hmem
    · exact h.forward n' handover hmem
    · obtain ⟨_, hhandover, heq⟩ := List.mem_map.1 hmem
      cases heq
      exact hforward handover hhandover

/-- Frames may get lost or come a step closer. -/
theorem Lined.shift {arrived' : List (Nat × Bytes)}
    (h : Lined home owner target arrived routed frames w)
    (hconfig : w'.exchange.config = w.exchange.config) (haccepted : w'.accepted = w.accepted)
    (hbusy : ∀ id, (w'.trail id).inHand.length ≤ w.exchange.processors)
    (hplaced : ∀ id, Placed home owner target w.accepted id (w'.trail id))
    (hunrouted : (w'.trail home).unrouted = (w.trail home).unrouted)
    (hunderway : (arrived' ++ (w'.trail owner).underway).Subperm
      (arrived ++ (w.trail owner).underway))
    (hsingle : w.exchange.processors = 1 → (arrived' ++ (w'.trail owner).underway).Sublist
      (arrived ++ (w.trail owner).underway)) :
    Lined home owner target arrived' routed frames w' := by
  have hprocessors := processors_of_config hconfig
  constructor
  · rw [hprocessors]
    exact hbusy
  · rw [haccepted]
    exact hplaced
  · rw [haccepted]
    exact h.meant
  · rw [haccepted, hconfig]
    exact h.made
  · exact h.unsent
  · rw [haccepted, hunrouted]
    exact h.unrouted
  · exact hunderway.trans h.underway
  · intro hone
    rw [hprocessors] at hone
    rw [haccepted, hunrouted]
    exact ⟨(h.single hone).1, (hsingle hone).trans (h.single hone).2⟩

/-- **What handles nothing that is followed leaves everything in line.** -/
theorem lined_of_label (hw : w.Faithful) (hm : w.Possible m) (hlabel : w.label m = none)
    (h : Lined home owner target arrived routed frames w) :
    Lined home owner target arrived routed frames (w.move m) := by
  have hspares := spares_move hw hm hlabel
  refine h.shift (config_move hw hm) (taken_of_label hlabel) (busy_move h.busy m) (fun id => ?_)
    (hspares home).unrouted ?_ fun _ => ?_
  · refine ⟨fun n task hmem => ?_, fun n handover hmem => ?_⟩
    · rw [(hspares id).tasks] at hmem
      exact (h.placed id).tasks n task hmem
    · rw [(hspares id).forward] at hmem
      exact (h.placed id).forward n handover hmem
  · rw [(hspares owner).underway]
  · rw [(hspares owner).underway]

/-- What is where it should be stays so when more is taken in. -/
theorem Placed.taken {accepted : List (Envelope × Bytes)} {id : Nat} {t : Trail}
    (h : Placed home owner target accepted id t) (more : List (Envelope × Bytes)) :
    Placed home owner target (accepted ++ more) id t := by
  refine ⟨fun n task hmem => ?_, h.forward⟩
  rcases h.tasks n task hmem with ⟨hid, horigin, htask⟩ | hforwarded
  · obtain ⟨hn, -⟩ := List.getElem?_eq_some_iff.1 htask
    exact Or.inl ⟨hid, horigin, by rw [List.getElem?_append_left hn, htask]⟩
  · exact Or.inr hforwarded

/-- The next message to be taken in has no frames yet. -/
theorem Lined.frames_length (h : Lined home owner target arrived routed frames w) :
    frames w.accepted.length = [] := by
  refine h.unsent _ fun hmem => ?_
  exact absurd (h.unrouted.subset (List.mem_append_left _ hmem)) (by simp)

/-- A message that is taken in is the last to be routed. -/
theorem lined_of_taken (h : Lined home owner target arrived routed frames w) {e : Envelope}
    {raw : Bytes} (hrecipient : e.recipient = target) (hkind : e.deliveryKind = .direct)
    (hconfig : w'.exchange.config = w.exchange.config)
    (haccepted : w'.accepted = w.accepted ++ [(e, raw)])
    (htrail : ∀ id, w'.trail id = (w.trail id).add (some w.accepted.length)
      (if id = home then [{ envelope := e, raw, origin := .inbound }] else []) []) :
    Lined home owner target arrived routed frames w' := by
  have hprocessors := processors_of_config hconfig
  have hunrouted : (w'.trail home).unrouted
      = (w.trail home).unrouted ++ [w.accepted.length] := by
    rw [htrail, if_pos rfl, unrouted, followed_tasks_add, List.filterMap_append]
    rfl
  -- what comes in itself is no frame on its way to the target
  have hunderway : (w'.trail owner).underway = (w.trail owner).underway := by
    rw [htrail, underway, followed_tasks_add, followed_forward_add, List.filterMap_append,
      List.map_nil, List.append_nil]
    split
    · exact congrArg (· ++ _) (List.append_nil _)
    · exact congrArg (· ++ _) (List.append_nil _)
  have hlength : w'.accepted.length = w.accepted.length + 1 := by
    rw [haccepted, List.length_append, List.length_singleton]
  constructor
  · intro id
    rw [hprocessors, htrail]
    exact h.busy id
  · intro id
    rw [htrail, haccepted]
    refine ((h.placed id).taken [(e, raw)]).add (fun task htask => ?_) fun _ hmem =>
      absurd hmem List.not_mem_nil
    split at htask
    · rename_i hid
      obtain rfl := List.mem_singleton.1 htask
      exact Or.inl ⟨hid, rfl, List.getElem?_concat_length⟩
    · exact absurd htask List.not_mem_nil
  · rw [haccepted]
    intro e' raw' hmem
    rcases List.mem_append.1 hmem with hmem | hmem
    · exact h.meant e' raw' hmem
    · cases List.mem_singleton.1 hmem
      exact ⟨hrecipient, hkind⟩
  · rw [haccepted, hconfig]
    intro n e' raw' hn
    by_cases hlast : n = w.accepted.length
    · rw [hlast, h.frames_length]
      exact Or.inl rfl
    · obtain ⟨hlt, -⟩ := List.getElem?_eq_some_iff.1 hn
      rw [List.length_append, List.length_singleton] at hlt
      rw [List.getElem?_append_left (by omega)] at hn
      exact h.made n e' raw' hn
  · exact h.unsent
  · rw [hunrouted, hlength, List.range_succ, ← List.append_assoc]
    exact h.unrouted.append_right _
  · rw [hunderway]
    exact h.underway
  · intro hone
    rw [hprocessors] at hone
    rw [hunrouted, hunderway, hlength, List.range_succ, ← List.append_assoc, (h.single hone).1]
    exact ⟨rfl, (h.single hone).2⟩

/-- **A message may be taken in, or not.** -/
theorem lined_hand (hw : w.Faithful) (h : Lined home owner target arrived routed frames w)
    {e : Envelope} (raw : Bytes) (hrecipient : e.recipient = target)
    (hkind : e.deliveryKind = .direct) :
    Lined home owner target arrived routed frames (w.move (.hand home e raw)) := by
  have hconfig := config_move (m := .hand home e raw) hw trivial
  rcases w.exchange.queued_submit home { envelope := e, raw, origin := .inbound } with
    ⟨hok, hqueued⟩ | ⟨⟨fault, herror⟩, hqueued⟩
  · refine lined_of_taken h hrecipient hkind hconfig ?_ (trail_of_queued hw hqueued)
    show w.taken (.hand home e raw) = _
    rw [taken, Exchange.enqueueEnvelope, hok]
  · -- the queue was full, and the message is as if it had never come
    have htrail : ∀ id, (w.move (.hand home e raw)).trail id = w.trail id := by
      intro id
      rw [trail_of_queued hw hqueued id, ite_self, add_nil]
      rfl
    refine h.shift hconfig ?_ (fun id => ?_) (fun id => ?_) ?_ ?_ fun _ => ?_
    · show w.taken (.hand home e raw) = _
      rw [taken, Exchange.enqueueEnvelope, herror]
    · rw [htrail]
      exact h.busy id
    · rw [htrail]
      exact h.placed id
    · rw [htrail]
    · rw [htrail]
    · rw [htrail]

/-- **A frame that was handed over is queued, or gets lost.** -/
theorem lined_relay (hw : w.Faithful) (h : Lined home owner target arrived routed frames w)
    {shard n : Nat} {handover : Handover} {rest : List (Option Nat × Handover)}
    (hforward : (w.trail shard).forward = (some n, handover) :: rest) :
    Lined home owner target arrived routed frames (w.move (.act (.relay shard))) := by
  have hconfig := config_move (m := .act (.relay shard)) hw trivial
  have hmem : (n, handover) ∈ followed (w.trail shard).forward := by
    rw [hforward, followed_cons_some]
    exact List.mem_cons_self
  obtain ⟨rfl, hne, rfl⟩ := (h.placed shard).forward n handover hmem
  obtain ⟨tasks, htasks, hqueued⟩ :=
    (w.exchange.draw shard).queued_enqueue shard handover.frame handover.target
  rw [← Exchange.relay_of_forward (forward_of_trail hw hforward)] at hqueued
  have htrail := trail_of_queued (m := .act (.relay shard)) hw hqueued
  rw [label_relay hforward] at htrail
  -- nothing is handed over to the shard where the messages come in
  have hhome : (w.move (.act (.relay shard))).trail home = w.trail home := by
    rw [htrail, if_neg hne, add_nil, lift_relay, if_neg hne]
  have hframe : ((tasks.map (Prod.mk n)).filterMap forwardedFrame).Sublist
      [(n, handover.frame)] := by
    rcases htasks with rfl | ⟨e, rfl⟩
    · exact List.nil_sublist _
    · exact List.Sublist.refl _
  have hunderway : ((w.move (.act (.relay shard))).trail shard).underway.Sublist
      (w.trail shard).underway := by
    rw [htrail, if_pos rfl, lift_relay, if_pos rfl, underway, underway, followed_tasks_add,
      followed_forward_add, hforward, List.tail_cons, followed_cons_some, List.filterMap_append,
      List.map_nil, List.append_nil, List.map_cons, List.append_assoc]
    exact (hframe.append_right _).append_left _
  refine h.shift hconfig rfl (busy_move h.busy _) (fun id => ?_) (by rw [hhome]) ?_ fun _ => ?_
  · rw [htrail]
    refine (placed_lift h _ id).add (fun task htask => ?_) fun _ hmem =>
      absurd hmem List.not_mem_nil
    split at htask
    · rename_i hid
      rcases htasks with rfl | ⟨e, rfl⟩
      · exact absurd htask List.not_mem_nil
      · obtain rfl := List.mem_singleton.1 htask
        exact Or.inr ⟨hid, hne, rfl⟩
    · exact absurd htask List.not_mem_nil
  · exact (hunderway.append_left arrived).subperm
  · exact hunderway.append_left arrived

/-- **A frame that was handed over comes to the connection, or gets lost.** -/
theorem lined_arrive (hw : w.Faithful) (h : Lined home owner target arrived routed frames w)
    (hfixed : w.exchange.Fixed home owner target session) {slot n : Nat} {task : Task}
    (hslot : (w.trail owner).inHand[slot]? = some (some n, task)) (hne : home ≠ owner)
    (horigin : task.origin = .forwarded target) :
    Lined home owner target
      (arrived ++ followed (w.gained session (.act (.finish owner slot)))) routed frames
      (w.move (.act (.finish owner slot))) := by
  let m : Move := .act (.finish owner slot)
  have hconfig := config_move (m := m) hw trivial
  have hlabel : w.label m = some n := label_finish hslot
  obtain ⟨k, hbrought⟩ := Exchange.brings_forwarded (x := w.exchange.putDown owner slot) hw.keyed
    (hfixed.putDown owner slot) task.envelope task.raw
  have hresult : w.result m = (w.exchange.putDown owner slot).routeTask owner
      { envelope := task.envelope, raw := task.raw, origin := .forwarded target } := by
    rw [← horigin]
    exact Exchange.finish_eq_routeTask (inHand_of_trail hw hslot)
  rw [← hresult] at hbrought
  have htrail : ∀ id, (w.move m).trail id = w.lift m id := by
    intro id
    refine (trail_move hw [] [] ?_ ?_).trans (add_nil _ _)
    · rw [List.append_nil]
      exact hbrought.work id
    · rw [List.append_nil, hbrought.forward, if_neg fun h => h.2 rfl, List.append_nil]
      rfl
  have hgained : followed (w.gained session m) = ([task.raw].take k).map (Prod.mk n) := by
    have hwaiting := hbrought.waiting
    rw [if_pos rfl] at hwaiting
    rw [gained_of_waiting hwaiting, hlabel, followed_some]
  have hhome : (w.move m).trail home = w.trail home := by
    rw [htrail, lift_finish, if_neg hne]
  have howner : (w.move m).trail owner = (w.trail owner).putDown slot := by
    rw [htrail, lift_finish, if_pos rfl]
  have hframe : forwardedFrame (n, task) = some (n, task.raw) := by
    rw [forwardedFrame, if_neg (by rw [horigin]; exact fun h => by cases h)]
  have htake : (([task.raw].take k).map (Prod.mk n)).Sublist [(n, task.raw)] :=
    (List.take_sublist k _).map (Prod.mk n)
  refine h.shift hconfig rfl (busy_move h.busy m) (fun id => ?_) (by rw [hhome]) ?_ fun hone => ?_
  · rw [htrail]
    exact placed_lift h m id
  · rw [hgained, howner, List.append_assoc, List.subperm_append_left, underway, underway,
      ← List.append_assoc]
    have hperm := (followed_putDown_perm hslot).filterMap forwardedFrame
    rw [List.filterMap_cons_some hframe] at hperm
    refine ((htake.append_right _).append_right _).subperm.trans ?_
    exact (hperm.symm.append_right _).subperm
  · -- the one processor had nothing else in hand
    have hsingle := followed_putDown_of_single hslot (hone ▸ h.busy owner)
    rw [hgained, howner, List.append_assoc, underway, underway, hsingle,
      List.filterMap_cons_some hframe, ← List.append_assoc (List.map _ _)]
    exact ((htake.append_right _).append_right _).append_left arrived

theorem numbered_update {n : Nat} (h : n ∉ routed) (frames : Nat → List Bytes)
    (made : List Bytes) : numbered (Function.update frames n made) (routed ++ [n])
      = numbered frames routed ++ made.map (Prod.mk n) := by
  rw [numbered, List.flatMap_append, List.flatMap_singleton, Function.update_self]
  refine congrArg (· ++ _) (List.flatMap_congr fun i hi => ?_)
  rw [Function.update_of_ne]
  rintro rfl
  exact h hi

/-- At the shard of its target itself a message is not handed over. -/
theorem underway_of_eq (h : ∀ id, Placed home owner target w.accepted id (w.trail id))
    (heq : home = owner) : (w.trail owner).underway = [] := by
  rw [underway, List.append_eq_nil_iff, List.filterMap_eq_nil_iff, List.map_eq_nil_iff]
  -- what waits there waits to be routed, and nothing was handed over
  constructor
  · rintro ⟨n, task⟩ hmem
    rcases (h owner).tasks n task hmem with ⟨-, horigin, -⟩ | ⟨-, hne, -⟩
    · exact if_pos horigin
    · exact absurd heq hne
  · refine List.eq_nil_iff_forall_not_mem.2 ?_
    rintro ⟨n, handover⟩ hmem
    exact absurd heq ((h owner).forward n handover hmem).2.1

/-- The frames of a message that is routed come behind everything that arrived or is underway. -/
theorem lined_of_routed {n : Nat} {e : Envelope} {raw : Bytes} {made : List Bytes}
    {arrived' more : List (Nat × Bytes)}
    (h : Lined home owner target arrived routed frames w)
    (hconfig : w'.exchange.config = w.exchange.config) (haccepted : w'.accepted = w.accepted)
    (hbusy : ∀ id, (w'.trail id).inHand.length ≤ w.exchange.processors)
    (hplaced : ∀ id, Placed home owner target w.accepted id (w'.trail id))
    (hmessage : w.accepted[n]? = some (e, raw))
    (hmade : e.MadeInto w.exchange.config.fragment.limits raw made)
    (hperm : (w.trail home).unrouted.Perm (n :: (w'.trail home).unrouted))
    (hsingle : w.exchange.processors = 1 →
      (w.trail home).unrouted = n :: (w'.trail home).unrouted)
    (hframes : arrived' ++ (w'.trail owner).underway = arrived ++ (w.trail owner).underway ++ more)
    (hmore : more.Sublist (made.map (Prod.mk n))) :
    Lined home owner target arrived' (routed ++ [n]) (Function.update frames n made) w' := by
  have hprocessors := processors_of_config hconfig
  -- a message that waits to be routed is in the list once, so it was not routed before
  have hnew : n ∉ routed := by
    intro hmem
    have hnodup := (h.unrouted.nodup_iff).2 List.nodup_range
    exact (List.nodup_append.1 hnodup).2.2 n hmem n (hperm.symm.subset List.mem_cons_self) rfl
  constructor
  · rw [hprocessors]
    exact hbusy
  · rw [haccepted]
    exact hplaced
  · rw [haccepted]
    exact h.meant
  · rw [haccepted, hconfig]
    intro n' e' raw' hn'
    -- only the message at hand has got frames
    by_cases hn : n' = n
    · subst hn
      obtain ⟨rfl, rfl⟩ := Prod.mk.inj (Option.some.inj (hn'.symm.trans hmessage))
      rw [Function.update_self]
      exact hmade
    · rw [Function.update_of_ne hn]
      exact h.made n' e' raw' hn'
  · intro n' hn'
    rw [List.mem_append, List.mem_singleton, not_or] at hn'
    rw [Function.update_of_ne hn'.2]
    exact h.unsent n' hn'.1
  · rw [List.append_assoc, haccepted]
    exact (hperm.symm.append_left routed).trans h.unrouted
  · rw [hframes, numbered_update hnew]
    exact ((List.subperm_append_right _).2 h.underway).trans (hmore.append_left _).subperm
  · intro hone
    rw [hprocessors] at hone
    obtain ⟨hall, hordered⟩ := h.single hone
    rw [hsingle hone] at hall
    rw [hframes, numbered_update hnew, List.append_assoc, haccepted]
    exact ⟨hall, hordered.append hmore⟩

/-- The first of a message's frames go to the connection, or into the forward queue of the shard
that has it. -/
theorem sends_route (hw : w.Faithful) (hfixed : w.exchange.Fixed home owner target session)
    (htarget : target ≠ "") {slot n : Nat} {task : Task}
    (hslot : (w.trail home).inHand[slot]? = some (some n, task)) (horigin : task.origin = .inbound)
    (hrecipient : task.envelope.recipient = target)
    (hkind : task.envelope.deliveryKind = .direct) :
    ∃ made sent : List Bytes,
      task.envelope.MadeInto w.exchange.config.fragment.limits task.raw made ∧
      sent.Sublist made ∧
      (∀ id, (w.move (.act (.finish home slot))).trail id
        = (w.lift (.act (.finish home slot)) id).add (some n) []
          (if id = owner ∧ home ≠ owner then sent.map (Handover.mk target) else [])) ∧
      followed (w.gained session (.act (.finish home slot)))
        = if home = owner then sent.map (Prod.mk n) else [] := by
  let m : Move := .act (.finish home slot)
  have hlabel : w.label m = some n := label_finish hslot
  have hinHand := inHand_of_trail hw hslot
  obtain ⟨made, hmade, k, hbrought⟩ := Exchange.brings_inbound
    (x := w.exchange.putDown home slot) hw.keyed (hfixed.putDown home slot)
    (Exchange.isSome_shard?_putDown hinHand) hrecipient htarget hkind task.raw
  have hresult : w.result m = (w.exchange.putDown home slot).routeTask home
      { envelope := task.envelope, raw := task.raw, origin := .inbound } := by
    rw [← horigin]
    exact Exchange.finish_eq_routeTask hinHand
  rw [← hresult] at hbrought
  refine ⟨made, made.take k, hmade, List.take_sublist k made, fun id => ?_, ?_⟩
  · rw [← hlabel]
    refine trail_move hw [] _ ?_ (hbrought.forward id)
    rw [List.append_nil]
    exact hbrought.work id
  · rw [gained_of_waiting hbrought.waiting, hlabel, followed_some]
    split
    · rfl
    · rfl

/-- **A message that is routed sends the first of its frames on their way.** -/
theorem lined_route (hw : w.Faithful) (h : Lined home owner target arrived routed frames w)
    (hfixed : w.exchange.Fixed home owner target session) (htarget : target ≠ "") {slot n : Nat}
    {task : Task} (hslot : (w.trail home).inHand[slot]? = some (some n, task))
    (horigin : task.origin = .inbound)
    (hmessage : w.accepted[n]? = some (task.envelope, task.raw)) :
    ∃ made, Lined home owner target
      (arrived ++ followed (w.gained session (.act (.finish home slot)))) (routed ++ [n])
      (Function.update frames n made) (w.move (.act (.finish home slot))) := by
  let m : Move := .act (.finish home slot)
  obtain ⟨hrecipient, hkind⟩ := h.meant _ _ (List.mem_of_getElem? hmessage)
  obtain ⟨made, sent, hmade, hsent, htrail, hgained⟩ :=
    sends_route hw hfixed htarget hslot horigin hrecipient hkind
  have hplaced : ∀ id, Placed home owner target w.accepted id ((w.move m).trail id) := by
    intro id
    rw [htrail]
    refine (placed_lift h m id).add (fun _ hmem => absurd hmem List.not_mem_nil)
      fun handover hmem => ?_
    split at hmem
    · rename_i hid
      obtain ⟨frame, -, rfl⟩ := List.mem_map.1 hmem
      exact ⟨hid.1, hid.2, rfl⟩
    · exact absurd hmem List.not_mem_nil
  -- the message is not among those that wait to be routed any more
  have hnumber : inboundNumber (n, task) = some n := if_pos horigin
  have hunrouted : ((w.move m).trail home).unrouted = ((w.trail home).putDown slot).unrouted := by
    rw [htrail, unrouted, followed_tasks_add, List.map_nil, List.append_nil, lift_finish,
      if_pos rfl]
    rfl
  have hframes : (arrived ++ followed (w.gained session m)) ++ ((w.move m).trail owner).underway
      = (arrived ++ (w.trail owner).underway) ++ sent.map (Prod.mk n) := by
    by_cases heq : home = owner
    · rw [hgained, if_pos heq, underway_of_eq hplaced heq, underway_of_eq h.placed heq,
        List.append_nil, List.append_nil]
    · rw [hgained, if_neg heq, htrail, if_pos ⟨rfl, heq⟩, underway_add, lift_finish,
        if_neg (Ne.symm heq), List.append_nil, List.append_assoc]
  refine ⟨made, lined_of_routed h (config_move (m := m) hw trivial) rfl (busy_move h.busy m) hplaced
    hmessage hmade ?_ (fun hone => ?_) hframes (hsent.map (Prod.mk n))⟩
  · have hperm := (followed_putDown_perm hslot).filterMap inboundNumber
    rw [List.filterMap_cons_some hnumber] at hperm
    rw [hunrouted]
    exact hperm
  · have hsingle := followed_putDown_of_single hslot (hone ▸ h.busy home)
    rw [hunrouted, unrouted, hsingle, List.filterMap_cons_some hnumber]
    rfl

/-- Frames of every message that was taken in. -/
def Makes (w : Pursuit) (frames : Nat → List Bytes) : Prop :=
  ∀ n (e : Envelope) raw, w.accepted[n]? = some (e, raw) →
    e.MadeInto w.exchange.config.fragment.limits raw (frames n)

/-- The frames of the messages in the order in which these were taken in. -/
def inOrder (w : Pursuit) (frames : Nat → List Bytes) : List (Nat × Bytes) :=
  numbered frames (List.range w.accepted.length)

/-- A message that one shard takes in for a target. -/
def Meant (home : Nat) (target : String) : Move → Prop
  | .hand shard e _ => shard = home ∧ e.recipient = target ∧ e.deliveryKind = .direct
  | _ => True

instance (home : Nat) (target : String) : DecidablePred (Meant home target)
  | .hand _ _ _ => inferInstanceAs (Decidable (_ ∧ _))
  | .act _ => inferInstanceAs (Decidable True)
  | .other _ => inferInstanceAs (Decidable True)

/-- **Whatever happens next, everything stays in line.** -/
theorem lined_move (hw : w.Faithful) (hm : w.Possible m)
    (hfixed : w.exchange.Fixed home owner target session) (htarget : target ≠ "")
    (hmeant : Meant home target m)
    (h : ∃ routed frames, Lined home owner target arrived routed frames w) :
    ∃ routed frames, Lined home owner target (arrived ++ followed (w.gained session m)) routed
      frames (w.move m) := by
  obtain ⟨routed, frames, h⟩ := h
  cases hlabel : w.label m with
  | none =>
      refine ⟨routed, frames, ?_⟩
      rw [gained, hlabel, followed_none, List.append_nil]
      exact lined_of_label hw hm hlabel h
  | some n =>
      rcases label_cases hlabel with
        hhand | ⟨shard, handover, rest, rfl, hforward⟩ | ⟨shard, slot, task, rfl, hslot⟩
      · obtain ⟨shard, e, raw, rfl⟩ := exists_of_isHand hhand
        obtain ⟨rfl, hrecipient, hkind⟩ := hmeant
        refine ⟨routed, frames, ?_⟩
        rw [gained_hand, followed_nil, List.append_nil]
        exact lined_hand hw h raw hrecipient hkind
      · refine ⟨routed, frames, ?_⟩
        rw [gained_relay, followed_nil, List.append_nil]
        exact lined_relay hw h hforward
      · have hmem : (n, task) ∈ followed (w.trail shard).tasks :=
          mem_followed (List.mem_append_left _ (List.mem_of_getElem? hslot))
        rcases (h.placed shard).tasks n task hmem with
          ⟨rfl, horigin, haccepted⟩ | ⟨rfl, hne, horigin⟩
        · obtain ⟨made, hmade⟩ := lined_route hw h hfixed htarget hslot horigin haccepted
          exact ⟨_, _, hmade⟩
        · exact ⟨routed, frames, lined_arrive hw h hfixed hslot hne horigin⟩

/-- **Nothing that may happen brings messages out of line.** -/
theorem lined_after (hw : w.Faithful) (htarget : target ≠ "") {moves : List Move}
    (hgoes : w.Goes (Exchange.Fixed home owner target session) moves)
    (hmeant : ∀ m ∈ moves, Meant home target m)
    (h : ∃ routed frames, Lined home owner target arrived routed frames w) :
    ∃ routed frames, Lined home owner target (arrived ++ followed (received session w moves))
      routed frames (w.after moves) := by
  induction moves generalizing w arrived with
  | nil =>
      rw [received, followed_nil, List.append_nil]
      exact h
  | cons m moves ih =>
      obtain ⟨hfixed, hpossible, hgoes⟩ := hgoes
      have hmove := lined_move hw hpossible hfixed htarget (hmeant m List.mem_cons_self) h
      rw [received, followed_append, ← List.append_assoc]
      exact ih (faithful_move hw hpossible) hgoes
        (fun m' hm' => hmeant m' (List.mem_cons_of_mem m hm')) hmove

/-- **What waits at a connection in the end is the last of what waited there and what came.** -/
theorem waiting_after (hw : w.Faithful) {P : Exchange → Prop} {moves : List Move}
    (hgoes : w.Goes P moves) (session : Session) : (w.after moves).exchange.waiting session
      <:+ w.exchange.waiting session ++ (received session w moves).map Prod.snd := by
  induction moves generalizing w with
  | nil =>
      rw [received, List.map_nil, List.append_nil]
      exact List.suffix_rfl
  | cons m moves ih =>
      obtain ⟨-, hpossible, hgoes⟩ := hgoes
      have hmove := waiting_move hw hpossible session
      rw [received, List.map_append, ← List.append_assoc]
      refine (ih (faithful_move hw hpossible) hgoes).trans ?_
      obtain ⟨before, hbefore⟩ := hmove
      exact ⟨before, by rw [← List.append_assoc, hbefore]⟩

theorem processors_after (hw : w.Faithful) {P : Exchange → Prop} {moves : List Move}
    (hgoes : w.Goes P moves) : (w.after moves).exchange.processors = w.exchange.processors := by
  induction moves generalizing w with
  | nil => rfl
  | cons m moves ih =>
      obtain ⟨-, hpossible, hgoes⟩ := hgoes
      refine (ih (faithful_move hw hpossible) hgoes).trans ?_
      exact processors_of_config (config_move hw hpossible)

theorem unrouted_start (x : Exchange) (shard : Nat) : ((start x).trail shard).unrouted = [] := by
  rw [unrouted, show followed ((start x).trail shard).tasks = [] from followed_tasks_unlabelled _]
  rfl

theorem underway_start (x : Exchange) (shard : Nat) : ((start x).trail shard).underway = [] := by
  rw [underway, show followed ((start x).trail shard).tasks = [] from followed_tasks_unlabelled _,
    show followed ((start x).trail shard).forward = [] from followed_forward_unlabelled _]
  rfl

theorem lined_start {x : Exchange} (home owner : Nat) (target : String)
    (hbusy : ∀ shard, (x.traffic shard).inHand.length ≤ x.processors) :
    Lined home owner target [] [] (fun _ => []) (start x) where
  busy shard := by
    show ((x.traffic shard).inHand.map _).length ≤ _
    rw [List.length_map]
    exact hbusy shard
  placed shard := by
    refine ⟨fun n task hmem => ?_, fun n handover hmem => ?_⟩
    · rw [show followed ((start x).trail shard).tasks = [] from followed_tasks_unlabelled _] at hmem
      exact absurd hmem List.not_mem_nil
    · rw [show followed ((start x).trail shard).forward = [] from
        followed_forward_unlabelled _] at hmem
      exact absurd hmem List.not_mem_nil
  meant _ _ hmem := absurd hmem List.not_mem_nil
  made _ _ _ _ := Or.inl rfl
  unsent _ _ := rfl
  unrouted := by
    rw [List.nil_append, unrouted_start]
    exact List.Perm.refl _
  underway := by
    rw [List.nil_append, underway_start]
    exact List.Subperm.refl _
  single _ := by
    rw [List.nil_append, List.nil_append, unrouted_start, underway_start]
    exact ⟨rfl, List.Sublist.refl _⟩

/-- **Messages come to their target in the order in which one shard took them in, if shards have one
processor each; and with any number of processors no frame comes twice.** The target is connected at
this shard or another one, and everything else that goes on in the exchange may go on at the same
time. Frames may get lost at queues that are full. -/
theorem ordered_of_moves {x : Exchange} (hkeyed : x.ground.Keyed)
    (hbusy : ∀ shard, (x.traffic shard).inHand.length ≤ x.processors) (htarget : target ≠ "")
    {moves : List Move} (hgoes : (start x).Goes (Exchange.Fixed home owner target session) moves)
    (hmeant : ∀ m ∈ moves, Meant home target m) :
    (∃ frames : Nat → List Bytes, ((start x).after moves).Makes frames ∧
      (followed (received session (start x) moves)).Subperm
        (((start x).after moves).inOrder frames) ∧
      (x.processors = 1 → (followed (received session (start x) moves)).Sublist
        (((start x).after moves).inOrder frames))) ∧
    ((start x).after moves).exchange.waiting session
      <:+ x.waiting session ++ (received session (start x) moves).map Prod.snd := by
  have hw := faithful_start hkeyed
  refine ⟨?_, waiting_after hw hgoes session⟩
  obtain ⟨routed, frames, h⟩ :=
    lined_after hw htarget hgoes hmeant ⟨_, _, lined_start home owner target hbusy⟩
  rw [List.nil_append] at h
  -- messages that were not routed yet come last, and have no frames
  have hrest : (numbered frames routed).Sublist
      (numbered frames (routed ++ (((start x).after moves).trail home).unrouted)) := by
    rw [numbered, numbered, List.flatMap_append]
    exact List.sublist_append_left _ _
  refine ⟨frames, h.made, ?_, fun hone => ?_⟩
  · exact (((List.sublist_append_left _ _).subperm.trans h.underway).trans hrest.subperm).trans
      (h.unrouted.flatMap_right _).subperm
  · obtain ⟨hall, hframes⟩ := h.single ((processors_after hw hgoes).trans hone)
    rw [inOrder, ← hall]
    exact ((List.sublist_append_left _ _).trans hframes).trans hrest

/-- What is in order has its numbers in order. -/
theorem pairwise_inOrder (w : Pursuit) (frames : Nat → List Bytes) :
    (w.inOrder frames).Pairwise (·.1 ≤ ·.1) := by
  refine List.pairwise_flatMap.2 ⟨fun n _ => ?_, ?_⟩
  · refine List.pairwise_map.2 (List.pairwise_of_forall fun _ _ => ?_)
    exact Nat.le_refl n
  · refine List.pairwise_lt_range.imp fun hlt item hitem item' hitem' => ?_
    obtain ⟨_, -, rfl⟩ := List.mem_map.1 hitem
    obtain ⟨_, -, rfl⟩ := List.mem_map.1 hitem'
    exact Nat.le_of_lt hlt

/-- Two shards with one processor each, with Bob's connection at the first of them. -/
def alone : Exchange := { withBob with config.shard.processors := 1 }

def note (recipient text : String) : Envelope := .direct "ann" recipient .text text 1

/-- Two messages to Bob come in at the other shard, one after the other. -/
def lineUp : List Move :=
  [.hand 1 (note "bob" "1") (note "bob" "1").encode, .act (.take 1),
    .hand 1 (note "bob" "2") (note "bob" "2").encode, .act (.finish 1 0), .act (.relay 0),
    .act (.take 1), .act (.finish 1 0), .act (.take 0), .act (.relay 0), .act (.finish 0 0),
    .act (.take 0), .act (.finish 0 0)]

theorem idle_alone (shard : Nat) : (alone.traffic shard).inHand.length ≤ alone.processors := by
  rcases shard with _ | _ | shard
  · exact Nat.zero_le _
  · exact Nat.zero_le _
  · exact Nat.zero_le _

theorem ordered_of_moves_lineUp :
    followed (received 0 (start alone) lineUp)
      = [(0, (note "bob" "1").encode), (1, (note "bob" "2").encode)] ∧
    ∃ frames : Nat → List Bytes, ((start alone).after lineUp).Makes frames ∧
      (followed (received 0 (start alone) lineUp)).Sublist
        (((start alone).after lineUp).inOrder frames) := by
  have hkeyed : alone.ground.Keyed := Exchange.keyed_of_connections (x := withBob) rfl keyed_withBob
  have hgoes : (start alone).Goes (Exchange.Fixed 1 0 "bob" 0) lineUp := by
    refine ⟨?_, trivial, ?_, trivial, ?_, trivial, ?_, trivial, ?_, trivial, ?_, trivial, ?_,
      trivial, ?_, trivial, ?_, trivial, ?_, trivial, ?_, trivial, ?_, trivial, ?_⟩
    all_goals exact Exchange.fixed_of_shard? rfl rfl (fun _ => rfl) rfl rfl rfl
  obtain ⟨⟨frames, hmakes, -, hordered⟩, -⟩ :=
    ordered_of_moves hkeyed idle_alone (by decide) hgoes (by decide)
  exact ⟨rfl, frames, hmakes, hordered rfl⟩

/-- Two messages to Bob, which two processors take and the later one of which is routed first. -/
def swapped : List Move :=
  [.hand 0 (note "bob" "1") (note "bob" "1").encode,
    .hand 0 (note "bob" "2") (note "bob" "2").encode, .act (.take 0), .act (.take 0),
    .act (.finish 0 1), .act (.finish 0 0)]

/-- A message to Bob from the other shard, and a notice that goes straight to everybody. -/
def overtaken : List Move :=
  [.hand 1 (note "bob" "1") (note "bob" "1").encode, .hand 1 (note "" "2") (note "" "2").encode,
    .act (.take 1), .act (.finish 1 0), .act (.take 1), .act (.finish 1 0), .act (.relay 0),
    .act (.take 0), .act (.finish 0 0)]

/-- Several processors bring messages out of order, and so does one where a message has no
recipient. -/
theorem not_ordered :
    ((start withBob).Goes (Exchange.Fixed 0 0 "bob" 0) swapped ∧
      (∀ m ∈ swapped, Meant 0 "bob" m) ∧
      ¬ ∃ frames : Nat → List Bytes, ((start withBob).after swapped).Makes frames ∧
        (followed (received 0 (start withBob) swapped)).Sublist
          (((start withBob).after swapped).inOrder frames)) ∧
    alone.processors = 1 ∧ (start alone).Goes (Exchange.Fixed 1 0 "bob" 0) overtaken ∧
      (∀ m ∈ overtaken, Meant 1 "bob" m ∨ Meant 1 "" m) ∧
      ¬ ∃ frames : Nat → List Bytes, ((start alone).after overtaken).Makes frames ∧
        (followed (received 0 (start alone) overtaken)).Sublist
          (((start alone).after overtaken).inOrder frames) := by
  have hnot : ∀ (w : Pursuit) (frames : Nat → List Bytes) (f g : Bytes),
      ¬ [(1, f), (0, g)].Sublist (w.inOrder frames) := by
    intro w frames f g h
    have hpairwise := (pairwise_inOrder w frames).sublist h
    exact absurd (List.rel_of_pairwise_cons hpairwise List.mem_cons_self) (Nat.not_succ_le_zero 0)
  refine ⟨⟨?_, by decide, ?_⟩, rfl, ?_, by decide, ?_⟩
  · refine ⟨?_, trivial, ?_, trivial, ?_, trivial, ?_, trivial, ?_, trivial, ?_, trivial, ?_⟩
    all_goals exact Exchange.fixed_of_shard? rfl rfl (fun h => absurd rfl h) rfl rfl rfl
  · rintro ⟨frames, -, hordered⟩
    exact hnot _ frames (note "bob" "2").encode (note "bob" "1").encode hordered
  · refine ⟨?_, trivial, ?_, trivial, ?_, trivial, ?_, trivial, ?_, trivial, ?_, trivial, ?_,
      trivial, ?_, trivial, ?_, trivial, ?_⟩
    all_goals exact Exchange.fixed_of_shard? rfl rfl (fun _ => rfl) rfl rfl rfl
  · rintro ⟨frames, -, hordered⟩
    exact hnot _ frames (note "" "2").encode (note "bob" "1").encode hordered

end Pursuit

end Switchboard
