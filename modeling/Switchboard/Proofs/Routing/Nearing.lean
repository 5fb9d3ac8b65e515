import Mathlib.Data.List.Perm.Basic
import Switchboard.Proofs.Routing.Bringing
import Switchboard.Proofs.Routing.Broker

/-!
# On the way to one person

Frames for one connection may wait at its shard, in its processors, or with a broker. Any of them
may get lost, for want of room or because the consumer falls behind, but none comes twice and none
comes to anybody else. `Nearing` says so of an exchange in which nothing else is on its way.
Everything that is done keeps it (`nearing_act`), and the frames can be brought to their end
(`nearing_settles`).
-/

namespace Switchboard

namespace Broker

/-- What a subscriber has not read, whether it was written over or not. -/
def unread (b : Broker) (subscriber : Nat) : List BrokerEvent :=
  match b.subscribers.get? subscriber with
  | some next => b.sent.drop next
  | none => []

variable {b : Broker} {subscriber next : Nat}

theorem unread_of_get? (h : b.subscribers.get? subscriber = some next) :
    b.unread subscriber = b.sent.drop next := by
  rw [unread, h]

/-- A subscriber moves on. -/
theorem unread_insert (b : Broker) (subscriber next : Nat) :
    ({ b with subscribers := b.subscribers.insert subscriber next } : Broker).unread subscriber
      = b.sent.drop next :=
  unread_of_get? ((Table.get?_insert ..).trans (if_pos rfl))

/-- A subscriber reads the next event, or what it reads is none and it may skip some. -/
theorem read_cases (b : Broker) (subscriber : Nat) :
    (∃ event b', b.read subscriber = (.event event, b') ∧
      b.unread subscriber = event :: b'.unread subscriber) ∨
    ∃ reading b', b.read subscriber = (reading, b') ∧ (∀ event, reading ≠ .event event) ∧
      (b'.unread subscriber).Sublist (b.unread subscriber) ∧
      (b.unread subscriber ≠ [] →
        (b'.unread subscriber).length < (b.unread subscriber).length) := by
  rw [read]
  cases hnext : b.subscribers.get? subscriber with
  | none =>
      have hnothing : b.unread subscriber = [] := by rw [unread, hnext]
      refine Or.inr ⟨.closed, b, rfl, ?_, List.Sublist.refl _, fun hne => absurd hnothing hne⟩
      intro event h
      cases h
  | some next =>
      rw [unread_of_get? hnext]
      dsimp only
      split
      · -- events were written over, and the subscriber skips those
        rename_i hlost
        refine Or.inr ⟨_, _, rfl, ?_, ?_, fun _ => ?_⟩
        · intro event h
          cases h
        · rw [unread_insert]
          exact List.drop_sublist_drop_left b.sent (Nat.le_of_lt hlost)
        · rw [unread_insert, List.length_drop, List.length_drop]
          omega
      · cases hevent : b.sent[next]? with
        | none =>
            have hnothing : b.sent.drop next = [] :=
              List.drop_eq_nil_of_le (List.getElem?_eq_none_iff.1 hevent)
            refine Or.inr ⟨.nothing, b, rfl, ?_, ?_, fun hne => absurd hnothing hne⟩
            · intro event h
              cases h
            · rw [unread_of_get? hnext]
        | some event =>
            refine Or.inl ⟨event, _, rfl, ?_⟩
            rw [unread_insert]
            obtain ⟨hlt, rfl⟩ := List.getElem?_eq_some_iff.1 hevent
            exact List.drop_eq_getElem_cons hlt

/-- What is published comes last. -/
theorem unread_publish {b' : Broker} {event : BrokerEvent} (h : b.publish event = some b')
    (subscriber : Nat) : (b'.unread subscriber).Sublist (b.unread subscriber ++ [event]) := by
  rw [publish] at h
  split at h
  · cases h
  · obtain rfl := Option.some.inj h
    rw [unread, unread]
    cases b.subscribers.get? subscriber with
    | none => exact List.nil_sublist _
    | some next =>
        dsimp only
        rw [List.drop_append]
        exact (List.drop_sublist _ _).append_left _

theorem backlog_of_unread (h : b.unread subscriber = []) : b.backlog subscriber = 0 := by
  rw [backlog]
  cases hnext : b.subscribers.get? subscriber with
  | none => rfl
  | some next =>
      rw [unread_of_get? hnext, List.drop_eq_nil_iff] at h
      dsimp only
      rw [if_neg (by omega)]
      omega

end Broker

namespace Traffic

/-- The frames that wait at a shard, or that its processors have taken. -/
def frames (t : Traffic) : List Bytes :=
  (t.inHand.map Task.raw ++ t.work.map Task.raw) ++ t.forward.map Handover.frame

/-- Nothing is there but frames that were handed over for a target. -/
structure IsFor (target : String) (t : Traffic) : Prop where
  tasks : ∀ task ∈ t.inHand ++ t.work, task.origin = .forwarded target
  forward : ∀ handover ∈ t.forward, handover.target = target

/-- The number of steps that the frames still have to take. -/
def todo (t : Traffic) : Nat := 3 * t.forward.length + 2 * t.work.length + t.inHand.length

variable {t : Traffic} {target : String} {task : Task} {tasks rest : List Task}

theorem isFor_nothing (target : String) : IsFor target {} :=
  ⟨fun _ h => absurd h List.not_mem_nil, fun _ h => absurd h List.not_mem_nil⟩

/-- A processor takes the oldest task. -/
theorem IsFor.take (h : t.IsFor target) (hwork : t.work = task :: rest) :
    IsFor target { t with work := rest, inHand := t.inHand ++ [task] } := by
  have htasks := h.tasks
  rw [hwork] at htasks
  refine ⟨?_, h.forward⟩
  rw [List.append_assoc]
  exact htasks

theorem frames_take (hwork : t.work = task :: rest) :
    frames { t with work := rest, inHand := t.inHand ++ [task] } = t.frames := by
  rw [frames, frames, hwork]
  simp only [List.map_append, List.map_cons, List.map_nil, List.append_assoc, List.cons_append,
    List.nil_append]

theorem todo_take (hwork : t.work = task :: rest) :
    todo { t with work := rest, inHand := t.inHand ++ [task] } < t.todo := by
  rw [todo, todo, hwork]
  simp only [List.length_append, List.length_cons, List.length_nil]
  omega

section PutDown

variable {slot : Nat}

/-- A processor puts a task down. -/
theorem IsFor.putDown (h : t.IsFor target) (slot : Nat) :
    IsFor target { t with inHand := t.inHand.eraseIdx slot } where
  tasks task' hmem := h.tasks task' (((List.eraseIdx_sublist _ _).append_right _).subset hmem)
  forward := h.forward

theorem frames_putDown (hslot : t.inHand[slot]? = some task) :
    (task.raw :: frames { t with inHand := t.inHand.eraseIdx slot }).Perm t.frames := by
  have hperm := (cons_eraseIdx_perm hslot).map Task.raw
  exact (hperm.append_right _).append_right _

theorem todo_putDown (hslot : t.inHand[slot]? = some task) :
    todo { t with inHand := t.inHand.eraseIdx slot } < t.todo := by
  obtain ⟨hlt, -⟩ := List.getElem?_eq_some_iff.1 hslot
  rw [todo, todo]
  simp only [List.length_eraseIdx_of_lt hlt]
  omega

end PutDown

section Relay

variable {handover : Handover} {handovers : List Handover}
  (hforward : t.forward = handover :: handovers)
  (htasks : tasks = [] ∨ ∃ e, tasks =
    [{ envelope := e, raw := handover.frame, origin := .forwarded handover.target }])

include hforward htasks

/-- A frame is queued that was handed over, or given up. -/
theorem IsFor.relay (h : t.IsFor target) :
    IsFor target { t with forward := handovers, work := t.work ++ tasks } := by
  have hfor := h.forward
  rw [hforward] at hfor
  obtain ⟨htarget, hrest⟩ := List.forall_mem_cons.1 hfor
  refine ⟨fun task hmem => ?_, hrest⟩
  rw [← List.append_assoc] at hmem
  rcases List.mem_append.1 hmem with hmem | hmem
  · exact h.tasks task hmem
  · rcases htasks with rfl | ⟨e, rfl⟩
    · exact absurd hmem List.not_mem_nil
    · obtain rfl := List.mem_singleton.1 hmem
      exact congrArg _ htarget

theorem frames_relay :
    (frames { t with forward := handovers, work := t.work ++ tasks }).Sublist t.frames := by
  have hqueued : (tasks.map Task.raw).Sublist [handover.frame] := by
    rcases htasks with rfl | ⟨e, rfl⟩
    · exact List.nil_sublist _
    · exact List.Sublist.refl _
  rw [frames, frames, hforward]
  simp only [List.map_append, List.map_cons, List.append_assoc]
  exact (((hqueued.append_right _).append_left _).append_left _)

theorem todo_relay : todo { t with forward := handovers, work := t.work ++ tasks } < t.todo := by
  have hlength : tasks.length ≤ 1 := by
    rcases htasks with rfl | ⟨e, rfl⟩
    · exact Nat.zero_le 1
    · exact Nat.le_refl 1
  rw [todo, todo, hforward]
  simp only [List.length_append, List.length_cons]
  omega

end Relay

end Traffic

namespace Exchange

/-- The exchange as it is for those who do not publish. -/
def muted (x : Exchange) : Exchange := { x with services.publishing := .off }

/-! ## Frames that are relayed -/

section Relay

variable {x : Exchange} {shard : Nat} {handover : Handover} {rest : List Handover}

theorem view_draw (h : (x.traffic shard).forward = handover :: rest) :
    (x.draw shard).view
      = x.view.setTraffic shard { x.view.traffic shard with forward := rest } := by
  cases hs : x.shard? shard with
  | none =>
      have hnone : x.traffic shard = {} := traffic_of_none hs
      rw [hnone] at h
      exact absurd h.symm (List.cons_ne_nil _ _)
  | some s =>
      have htraffic : x.traffic shard = s.traffic := traffic_of_shard? hs
      rw [htraffic] at h
      obtain ⟨forward, htake, hitems, hclear⟩ := Queue.take?_of_cons (q := s.forward) h
      rw [draw, hs]
      dsimp only
      rw [htake]
      refine (view_mapCounters ..).trans ?_
      rw [view_mapShard hs (by rw [Shard.bare, Shard.bare, hclear]), traffic_of_shard? hs]
      exact congrArg (fun forward => x.view.setTraffic shard { s.traffic with forward }) hitems

/-- A frame that is relayed is queued for its target, or given up. -/
theorem relay_cases (h : (x.traffic shard).forward = handover :: rest) : ∃ tasks : List Task,
    (tasks = [] ∨ ∃ e, tasks =
      [{ envelope := e, raw := handover.frame, origin := .forwarded handover.target }]) ∧
    (x.relay shard).view = x.view.setTraffic shard { x.view.traffic shard with
      forward := rest, work := (x.view.traffic shard).work ++ tasks } := by
  have hdraw := view_draw h
  -- for whatever reason a frame is given up, it is gone from the queue and nothing else is done
  have hgiven : ∀ y : Exchange, y.view = (x.draw shard).view →
      y.view = x.view.setTraffic shard { x.view.traffic shard with
        forward := rest, work := (x.view.traffic shard).work ++ [] } := by
    intro y hy
    rw [hy, hdraw, List.append_nil]
  rw [relay_of_forward h, enqueue]
  cases Envelope.decode handover.frame with
  | error fault => exact ⟨[], Or.inl rfl, hgiven _ (view_mapCounters ..)⟩
  | ok e =>
      rcases submit_cases (x.draw shard) shard
          { envelope := e, raw := handover.frame, origin := .forwarded handover.target } with
        ⟨y, hsubmit, -, hview⟩ | ⟨fault, y, hsubmit, hview, -⟩
      · refine ⟨_, Or.inr ⟨e, rfl⟩, ?_⟩
        dsimp only
        rw [hsubmit, hview, hdraw, View.setTraffic_setTraffic, View.traffic_setTraffic]
      · refine ⟨[], Or.inl rfl, ?_⟩
        dsimp only
        rw [hsubmit]
        exact hgiven y hview

end Relay

/-! ## Frames that are published -/

/-- What the consumer has not read. -/
def unread (x : Exchange) : List BrokerEvent :=
  match x.pool.consumer, x.services.publishing with
  | some subscriber, .broker b => b.unread subscriber
  | _, _ => []

theorem unread_of_consumer {x : Exchange} {subscriber : Nat} {b : Broker}
    (hconsumer : x.pool.consumer = some subscriber)
    (hpublishing : x.services.publishing = .broker b) : x.unread = b.unread subscriber := by
  rw [unread, hconsumer, hpublishing]

theorem unread_of_bare {x y : Exchange} (h : y.bare = x.bare) : y.unread = x.unread := by
  rw [unread, unread, consumer_of_bare h, publishing_of_bare h]

/-- The consumer has nothing to read, or handles the next event, or may skip some. -/
theorem consume_cases (x : Exchange) :
    (x.consume = x ∧ x.unread = []) ∨
    (∃ event b, x.unread = event :: (x.withBroker b).unread ∧
      x.consume = (x.withBroker b).handlePublished event) ∨
    ∃ b, x.consume = x.withBroker b ∧ (x.withBroker b).unread.Sublist x.unread ∧
      (x.unread ≠ [] → (x.withBroker b).unread.length < x.unread.length) := by
  cases hconsumer : x.pool.consumer with
  | none =>
      refine Or.inl ⟨?_, ?_⟩
      · rw [consume, hconsumer]
      · rw [unread, hconsumer]
  | some subscriber =>
      cases hpublishing : x.services.publishing with
      | off =>
          refine Or.inl ⟨?_, ?_⟩
          · rw [consume, hconsumer, hpublishing]
          · rw [unread, hconsumer, hpublishing]
      | refusing =>
          refine Or.inl ⟨?_, ?_⟩
          · rw [consume, hconsumer, hpublishing]
          · rw [unread, hconsumer, hpublishing]
      | broker b =>
          have hunread : ∀ b', (x.withBroker b').unread = b'.unread subscriber :=
            fun b' => unread_of_consumer hconsumer rfl
          rw [unread_of_consumer hconsumer hpublishing]
          rcases b.read_cases subscriber with
            ⟨event, b', hread, hcons⟩ | ⟨reading, b', hread, hnone, hsub, hless⟩
          · refine Or.inr (Or.inl ⟨event, b', ?_, consume_of_event hconsumer hpublishing hread⟩)
            rw [hunread]
            exact hcons
          · refine Or.inr (Or.inr ⟨b', ?_, ?_⟩)
            · rw [consume, hconsumer, hpublishing]
              dsimp only
              rw [hread]
              -- an event was the case before; the others leave the exchange as it is
              cases reading with
              | event event => exact absurd rfl (hnone event)
              | lagged missed => rfl
              | nothing => rfl
              | closed => rfl
            · rw [hunread]
              exact ⟨hsub, hless⟩

theorem unread_of_caughtUp {x : Exchange} (hx : x.CaughtUp) : x.unread = [] := by
  rw [unread]
  cases hconsumer : x.pool.consumer with
  | none => rfl
  | some subscriber =>
      cases hpublishing : x.services.publishing with
      | off => rfl
      | refusing => rfl
      | broker b =>
          dsimp only
          rw [Broker.unread]
          cases hnext : b.subscribers.get? subscriber with
          | none => rfl
          | some next =>
              obtain rfl := hx subscriber b next hconsumer hpublishing hnext
              exact List.drop_length

/-- What is published comes last of what the consumer reads. -/
theorem unread_publish {x y : Exchange} {event : BrokerEvent} (h : x.publish event = some y) :
    y.muted = x.muted ∧ y.unread.Sublist (x.unread ++ [event]) := by
  rw [publish] at h
  cases hpublishing : x.services.publishing with
  | off =>
      rw [hpublishing] at h
      cases h
  | refusing =>
      rw [hpublishing] at h
      cases h
  | broker b =>
      rw [hpublishing] at h
      dsimp only at h
      cases hpublish : b.publish event with
      | none =>
          rw [hpublish] at h
          cases h
      | some b' =>
          rw [hpublish] at h
          obtain rfl := Option.some.inj h
          refine ⟨rfl, ?_⟩
          rw [unread, unread, hpublishing]
          cases x.pool.consumer with
          | none => exact List.nil_sublist _
          | some subscriber => exact Broker.unread_publish hpublish subscriber

theorem unread_publishAll {x y : Exchange} {events : List BrokerEvent}
    (h : x.publishAll events = some y) :
    y.muted = x.muted ∧ y.unread.Sublist (x.unread ++ events) := by
  induction events generalizing x with
  | nil =>
      obtain rfl := Option.some.inj h
      exact ⟨rfl, List.sublist_append_left ..⟩
  | cons event events ih =>
      rw [publishAll] at h
      cases hpublish : x.publish event with
      | none =>
          rw [hpublish] at h
          cases h
      | some z =>
          rw [hpublish] at h
          obtain ⟨hmuted, hsub⟩ := unread_publish hpublish
          obtain ⟨hmuted', hsub'⟩ := ih h
          refine ⟨hmuted'.trans hmuted, hsub'.trans ?_⟩
          have hall := hsub.append_right events
          rwa [List.append_assoc] at hall

/-! ## Frames on their way to a connection -/

/-- The frames that are on their way to a shard. -/
def underwayTo (x : Exchange) (owner : Nat) : List Bytes :=
  (x.traffic owner).frames ++ x.unread.filterMap BrokerEvent.frame?

/-- The number of steps that frames still have to take to a shard. -/
def todoTo (x : Exchange) (owner : Nat) : Nat := (x.traffic owner).todo + x.unread.length

/-- Frames are on their way to a connection, and nothing else is. Some have arrived, some may have
got lost, and none comes twice. -/
structure Nearing (x : Exchange) (owner : Nat) (session : Session) (target : String)
    (frames : List Bytes) (y : Exchange) : Prop where
  bare : y.muted.bare = x.muted.bare
  idle : ∀ id, id ≠ owner → y.traffic id = {}
  bound : (y.traffic owner).IsFor target
  unread : ∀ event ∈ y.unread, ∃ frame, event = .direct target frame
  mail : ∃ arrived, y.mail session = (x.mail session).map (·.add arrived) ∧
    (arrived ++ y.underwayTo owner).Subperm frames
  others : ∀ τ, τ ≠ session → y.mail τ = x.mail τ
  offline : y.services.offline = x.services.offline

/-- A frame was picked up that was on its way to a shard, and what is left there is for a target. -/
structure PicksUp (owner : Nat) (target : String) (raw : Bytes) (y z : Exchange) : Prop where
  bare : z.muted.bare = y.muted.bare
  idle : ∀ id, id ≠ owner → z.traffic id = y.traffic id
  bound : (z.traffic owner).IsFor target
  unread : ∀ event ∈ z.unread, ∃ frame, event = .direct target frame
  mail : z.mail = y.mail
  offline : z.services.offline = y.services.offline
  frames : (raw :: z.underwayTo owner).Subperm (y.underwayTo owner)

section Nearing

variable {x y z : Exchange} {owner : Nat} {session : Session} {target : String}
  {frames : List Bytes} {t : Traffic} {raw : Bytes}

/-- What is published has no part in who is where. -/
theorem Nearing.holder? (h : x.Nearing owner session target frames y) (id : Nat)
    (identity : String) : y.holder? id identity = x.holder? id identity :=
  holder?_of_bare (y := y.muted) (x := x.muted) h.bare id identity

theorem Nearing.keepsAt (hx : x.Owned) (hheld : x.holder? owner target = some session)
    (h : x.Nearing owner session target frames y) : y.view.KeepsAt session := by
  intro b hb
  obtain ⟨arrived, hmail, -⟩ := h.mail
  have hb : y.mail session = some b := hb
  rw [hmail] at hb
  obtain ⟨b', hb', rfl⟩ := Option.map_eq_some_iff.1 hb
  exact hx.keepsAt hheld b' hb'

/-- Some of the frames may come to the connection, and others may get lost. -/
theorem Nearing.step (h : x.Nearing owner session target frames y)
    (hbare : z.muted.bare = y.muted.bare) (hidle : ∀ id, id ≠ owner → z.traffic id = y.traffic id)
    (hbound : (z.traffic owner).IsFor target)
    (hunread : ∀ event ∈ z.unread, ∃ frame, event = .direct target frame)
    (hoffline : z.services.offline = y.services.offline)
    (hothers : ∀ τ, τ ≠ session → z.mail τ = y.mail τ)
    (hmail : ∃ more, z.mail session = (y.mail session).map (·.add more) ∧
      (more ++ z.underwayTo owner).Subperm (y.underwayTo owner)) :
    x.Nearing owner session target frames z where
  bare := hbare.trans h.bare
  idle id hid := (hidle id hid).trans (h.idle id hid)
  bound := hbound
  unread := hunread
  mail := by
    obtain ⟨arrived, harrived, hsub⟩ := h.mail
    obtain ⟨more, hmore, hsub'⟩ := hmail
    refine ⟨arrived ++ more, ?_, ?_⟩
    · rw [hmore, harrived, Option.map_map]
      refine congrArg (fun f => (x.mail session).map f) (funext fun b => ?_)
      exact Mailbox.ext rfl (List.append_assoc ..)
    · rw [List.append_assoc]
      exact ((List.subperm_append_left arrived).2 hsub').trans hsub
  others τ hτ := (hothers τ hτ).trans (h.others τ hτ)
  offline := hoffline.trans h.offline

theorem add_nil_of_mail (m : Option Mailbox) : m = m.map (·.add []) := by
  cases m with
  | none => rfl
  | some b => exact congrArg some (Mailbox.ext rfl (List.append_nil _).symm)

/-- Frames come a step closer at the shard, or get lost there. -/
theorem nearing_setTraffic (h : x.Nearing owner session target frames y)
    (hview : z.view = y.view.setTraffic owner t) (hbound : t.IsFor target)
    (hframes : t.frames.Subperm (y.traffic owner).frames) :
    x.Nearing owner session target frames z := by
  have hbare : z.bare = y.bare := bare_of_view hview
  have htraffic : ∀ id, z.traffic id = if id = owner then t else y.traffic id :=
    traffic_of_view hview
  have hmail : z.mail = y.mail := mail_of_view hview
  have hunread := unread_of_bare hbare
  refine h.step (congrArg muted hbare) (fun id hid => by rw [htraffic, if_neg hid]) ?_ ?_
    (offline_of_view hview) (fun τ _ => congrFun hmail τ) ⟨[], ?_, ?_⟩
  · rw [htraffic, if_pos rfl]
    exact hbound
  · rw [hunread]
    exact h.unread
  · rw [hmail]
    exact add_nil_of_mail _
  · rw [List.nil_append, underwayTo, underwayTo, htraffic, if_pos rfl, hunread]
    exact (List.subperm_append_right _).2 hframes

/-- A connection takes of some frames what it has room for. -/
theorem exists_accept (m : Option Mailbox) (frames : List Bytes) : ∃ more : List Bytes,
    m.map (·.accept frames) = m.map (·.add more) ∧ more.Sublist frames := by
  cases m with
  | none => exact ⟨[], rfl, List.nil_sublist _⟩
  | some b => exact ⟨frames.take b.room, rfl, List.take_sublist _ _⟩

/-- A frame that was picked up comes to the connection, or gets lost there. -/
theorem nearing_give {y' : Exchange} (h : x.Nearing owner session target frames y)
    (hup : PicksUp owner target raw y y') (hview : z.view = y'.view.give session [raw]) :
    x.Nearing owner session target frames z := by
  have hbare : z.bare = y'.bare := bare_of_view hview
  have htraffic : ∀ id, z.traffic id = y'.traffic id := traffic_of_view hview
  have hunread := unread_of_bare hbare
  have hmail : ∀ τ, z.mail τ
      = if τ = session then (y.mail τ).map (·.accept [raw]) else y.mail τ := by
    intro τ
    rw [← hup.mail]
    exact congrFun (mail_of_view hview) τ
  obtain ⟨more, hmore, hsub⟩ := exists_accept (y.mail session) [raw]
  refine h.step ((congrArg muted hbare).trans hup.bare)
    (fun id hid => (htraffic id).trans (hup.idle id hid)) (htraffic owner ▸ hup.bound)
    (hunread ▸ hup.unread) ((offline_of_view hview).trans hup.offline)
    (fun τ hτ => by rw [hmail, if_neg hτ]) ⟨more, ?_, ?_⟩
  · rw [hmail, if_pos rfl]
    exact hmore
  · rw [underwayTo, htraffic, hunread]
    exact ((List.subperm_append_right _).2 hsub.subperm).trans hup.frames

/-! ## Step by step -/

theorem todoTo_of_view (hview : z.view = y.view.setTraffic owner t) :
    z.todoTo owner = t.todo + y.unread.length := by
  have htraffic : z.traffic owner = t := by
    refine (traffic_of_view hview owner).trans ?_
    rw [View.traffic_setTraffic]
  rw [todoTo, htraffic, unread_of_bare (bare_of_view hview)]

/-- A task that is taken is one step further. -/
theorem nearing_take_of_cons {task : Task} {rest : List Task}
    (h : x.Nearing owner session target frames y) (hwork : (y.traffic owner).work = task :: rest)
    (hfree : (y.traffic owner).inHand.length < y.processors) :
    x.Nearing owner session target frames (y.take owner) ∧
      (y.take owner).todoTo owner < y.todoTo owner := by
  have hview := view_take hwork hfree
  refine ⟨nearing_setTraffic h hview (h.bound.take hwork) ?_, ?_⟩
  · exact (List.Perm.of_eq (Traffic.frames_take hwork)).subperm
  · rw [todoTo_of_view hview]
    exact Nat.add_lt_add_right (Traffic.todo_take hwork) _

/-- A frame that was handed over is queued, or given up. -/
theorem nearing_relay_of_cons {handover : Handover} {rest : List Handover}
    (h : x.Nearing owner session target frames y)
    (hforward : (y.traffic owner).forward = handover :: rest) :
    x.Nearing owner session target frames (y.relay owner) ∧
      (y.relay owner).todoTo owner < y.todoTo owner := by
  obtain ⟨tasks, htasks, hview⟩ := relay_cases hforward
  refine ⟨nearing_setTraffic h hview (h.bound.relay hforward htasks) ?_, ?_⟩
  · exact (Traffic.frames_relay hforward htasks).subperm
  · rw [todoTo_of_view hview]
    exact Nat.add_lt_add_right (Traffic.todo_relay hforward htasks) _

/-- A task that is routed is a frame for the connection. -/
theorem nearing_finish_of_slot (hx : x.Owned) (hheld : x.holder? owner target = some session)
    {slot : Nat} {task : Task} (h : x.Nearing owner session target frames y)
    (hslot : (y.traffic owner).inHand[slot]? = some task) :
    x.Nearing owner session target frames (y.finish owner slot) ∧
      (y.finish owner slot).todoTo owner < y.todoTo owner := by
  -- only frames that were handed over for the target are taken at its shard
  have horigin := h.bound.tasks task (List.mem_append_left _ (List.mem_of_getElem? hslot))
  obtain ⟨envelope, raw, origin⟩ := task
  obtain rfl : origin = .forwarded target := horigin
  have hdown := view_putDown hslot
  have hbare : (y.putDown owner slot).bare = y.bare := bare_of_view hdown
  have htraffic : ∀ id, (y.putDown owner slot).traffic id = if id = owner then
      { y.traffic owner with inHand := (y.traffic owner).inHand.eraseIdx slot }
      else y.traffic id := traffic_of_view hdown
  -- the task leaves its slot, and its frame is in nobody's hands
  have hup : PicksUp owner target raw y (y.putDown owner slot) := by
    refine ⟨congrArg muted hbare, fun id hid => by rw [htraffic, if_neg hid], ?_, ?_,
      mail_of_view hdown, offline_of_view hdown, ?_⟩
    · rw [htraffic, if_pos rfl]
      exact h.bound.putDown slot
    · rw [unread_of_bare hbare]
      exact h.unread
    · rw [underwayTo, underwayTo, htraffic, if_pos rfl, unread_of_bare hbare]
      exact ((Traffic.frames_putDown hslot).append_right _).subperm
  have hheld' : (y.putDown owner slot).holder? owner target = some session :=
    (holder?_of_bare hbare owner target).trans ((h.holder? owner target).trans hheld)
  have hkey : (y.putDown owner slot).view.KeepsAt session := by
    rw [hdown]
    exact h.keepsAt hx hheld
  obtain ⟨hgive, -⟩ := routeTask_of_forwarded hheld' hkey envelope raw
  rw [← finish_eq_routeTask hslot] at hgive
  refine ⟨nearing_give h hup hgive, ?_⟩
  have hrouted : (y.finish owner slot).traffic owner = (y.putDown owner slot).traffic owner :=
    traffic_of_view hgive owner
  rw [todoTo, todoTo, hrouted, htraffic, if_pos rfl, unread_of_bare (bare_of_view hgive)]
  show _ + (y.putDown owner slot).unread.length < _
  rw [unread_of_bare hbare]
  exact Nat.add_lt_add_right (Traffic.todo_putDown hslot) _

/-- The consumer skips events, or has nothing to read. -/
theorem nearing_withBroker (h : x.Nearing owner session target frames y) {b : Broker}
    (hsub : (y.withBroker b).unread.Sublist y.unread) :
    x.Nearing owner session target frames (y.withBroker b) := by
  have hunread := fun event hevent => h.unread event (hsub.subset hevent)
  refine h.step rfl (fun _ _ => rfl) h.bound hunread rfl (fun _ _ => rfl)
    ⟨[], add_nil_of_mail _, ?_⟩
  rw [List.nil_append, underwayTo, underwayTo]
  exact (List.subperm_append_left (y.traffic owner).frames).2 (hsub.filterMap _).subperm

/-- What the consumer reads is a frame for the connection. -/
theorem nearing_handle (hx : x.Orderly) (hheld : x.holder? owner target = some session)
    (h : x.Nearing owner session target frames y) {event : BrokerEvent} {b : Broker}
    (hunread : y.unread = event :: (y.withBroker b).unread) :
    x.Nearing owner session target frames ((y.withBroker b).handlePublished event) ∧
      ((y.withBroker b).handlePublished event).todoTo owner < y.todoTo owner := by
  have hfor := h.unread
  rw [hunread] at hfor
  obtain ⟨⟨frame, rfl⟩, hrest⟩ := List.forall_mem_cons.1 hfor
  have hup : PicksUp owner target frame y (y.withBroker b) := by
    refine ⟨rfl, fun _ _ => rfl, h.bound, hrest, rfl, rfl, ?_⟩
    rw [underwayTo, underwayTo, hunread]
    exact List.perm_middle.symm.subperm
  -- the index is the one of the start, since only publishing differs
  have hindex : (y.withBroker b).pool.index.get? target = some owner := by
    have hsame : y.muted.pool.index = x.muted.pool.index := index_of_bare h.bare
    exact (congrArg (·.get? target) hsame).trans (hx.index_of_held hheld)
  have hkey : y.view.KeepsAt session := h.keepsAt hx.owned hheld
  obtain ⟨hgive, -⟩ := deliverFrame_of_held (x := y.withBroker b) hindex
    ((h.holder? owner target).trans hheld) hkey frame
  refine ⟨nearing_give h hup hgive, ?_⟩
  show ((y.withBroker b).deliverFrame target frame).2.todoTo owner < _
  have htraffic : ((y.withBroker b).deliverFrame target frame).2.traffic owner = y.traffic owner :=
    traffic_of_view hgive owner
  rw [todoTo, todoTo, htraffic, unread_of_bare (bare_of_view hgive), hunread, List.length_cons]
  omega

/-- **The consumer brings frames to the connection, or they get lost.** -/
theorem nearing_consume (hx : x.Orderly) (hheld : x.holder? owner target = some session)
    (h : x.Nearing owner session target frames y) :
    x.Nearing owner session target frames y.consume ∧
      (y.unread ≠ [] → y.consume.todoTo owner < y.todoTo owner) := by
  rcases y.consume_cases with
    ⟨hconsume, hnothing⟩ | ⟨event, b, hunread, hconsume⟩ | ⟨b, hconsume, hsub, hless⟩
  · rw [hconsume]
    exact ⟨h, fun hne => absurd hnothing hne⟩
  · rw [hconsume]
    obtain ⟨hnear, htodo⟩ := nearing_handle hx hheld h hunread
    exact ⟨hnear, fun _ => htodo⟩
  · rw [hconsume]
    exact ⟨nearing_withBroker h hsub, fun hne => Nat.add_lt_add_left (hless hne) _⟩

/-- **Whatever is done next, frames come to the connection, or get lost.** -/
theorem nearing_act (hx : x.Orderly) (hheld : x.holder? owner target = some session)
    (h : x.Nearing owner session target frames y) {action : Action}
    (haction : action.serves = true) : x.Nearing owner session target frames (y.act action) := by
  have hsame : y.act action = y → x.Nearing owner session target frames (y.act action) := by
    intro hact
    rw [hact]
    exact h
  cases action, haction using Action.serves_cases with
  | take id =>
      by_cases hid : id = owner
      · subst hid
        by_cases hfree : (y.traffic id).inHand.length < y.processors
        · cases hwork : (y.traffic id).work with
          | nil => exact hsame (take_of_nil hwork)
          | cons task rest => exact (nearing_take_of_cons h hwork hfree).1
        · exact hsame (take_of_busy hfree)
      · exact hsame (take_of_idle (h.idle id hid))
  | finish id slot =>
      by_cases hid : id = owner
      · subst hid
        cases hslot : (y.traffic id).inHand[slot]? with
        | none => exact hsame (finish_of_none hslot)
        | some task => exact (nearing_finish_of_slot hx.owned hheld h hslot).1
      · exact hsame (finish_of_idle (h.idle id hid) slot)
  | relay id =>
      by_cases hid : id = owner
      · subst hid
        cases hforward : (y.traffic id).forward with
        | nil => exact hsame (relay_of_nil hforward)
        | cons handover rest => exact (nearing_relay_of_cons h hforward).1
      · exact hsame (relay_of_idle (h.idle id hid))
  | answer =>
      -- no prompt waited at the start, and none was sent since
      have hprompts : y.muted.pool.prompts = x.muted.pool.prompts := prompts_of_bare h.bare
      exact hsame (answer_of_nil (hprompts.trans hx.noPrompt))
  | consume => exact (nearing_consume hx hheld h).1

theorem consuming_of_unread (h : y.unread = []) : y.consuming = [] := by
  rw [consuming]
  cases hconsumer : y.pool.consumer with
  | none => rfl
  | some subscriber =>
      cases hpublishing : y.services.publishing with
      | off => rfl
      | refusing => rfl
      | broker b =>
          rw [unread_of_consumer hconsumer hpublishing] at h
          dsimp only
          rw [Broker.backlog_of_unread h]
          rfl

/-- As long as frames are on their way, one of them can be brought on. -/
theorem nearing_advances (hx : x.Orderly) (hheld : x.holder? owner target = some session)
    (h : x.Nearing owner session target frames y) : y.Settled ∨
    ∃ action, action.serves = true ∧ x.Nearing owner session target frames (y.act action) ∧
      (y.act action).todoTo owner < y.todoTo owner := by
  -- whatever is furthest on goes first, so that a processor is free for what is queued
  cases hinHand : (y.traffic owner).inHand with
  | cons task rest =>
      have hslot : (y.traffic owner).inHand[0]? = some task := by
        rw [hinHand]
        rfl
      exact Or.inr ⟨.finish owner 0, rfl, nearing_finish_of_slot hx.owned hheld h hslot⟩
  | nil =>
      cases hwork : (y.traffic owner).work with
      | cons task rest =>
          have hfree : (y.traffic owner).inHand.length < y.processors := by
            rw [hinHand]
            exact Nat.lt_of_lt_of_le Nat.zero_lt_one (Nat.le_max_left 1 _)
          exact Or.inr ⟨.take owner, rfl, nearing_take_of_cons h hwork hfree⟩
      | nil =>
          cases hforward : (y.traffic owner).forward with
          | cons handover rest =>
              exact Or.inr ⟨.relay owner, rfl, nearing_relay_of_cons h hforward⟩
          | nil =>
              obtain ⟨hnear, hless⟩ := nearing_consume hx hheld h
              by_cases hunread : y.unread = []
              · refine Or.inl ⟨fun id => ?_, consuming_of_unread hunread⟩
                by_cases hid : id = owner
                · rw [hid]
                  exact Traffic.ext hwork hforward hinHand
                · exact h.idle id hid
              · exact Or.inr ⟨.consume, rfl, hnear, hless hunread⟩

/-- **All frames can be brought to their end.** -/
theorem nearing_settles (hx : x.Orderly) (hheld : x.holder? owner target = some session)
    (h : x.Nearing owner session target frames y) :
    ∃ more : List Action, (∀ action ∈ more, action.serves = true) ∧ (y.run more).Settled := by
  -- on the steps that the frames still have to take
  induction htodo : y.todoTo owner using Nat.strong_induction_on generalizing y with
  | _ todo ih =>
      rcases nearing_advances hx hheld h with hsettled | ⟨action, haction, hnear, hless⟩
      · exact ⟨[], fun _ hmem => absurd hmem List.not_mem_nil, hsettled⟩
      · obtain ⟨more, hmore, hsettled⟩ := ih _ (htodo ▸ hless) hnear rfl
        exact ⟨action :: more, List.forall_mem_cons.2 ⟨haction, hmore⟩, hsettled⟩

end Nearing

end Exchange

end Switchboard
