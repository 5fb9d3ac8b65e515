import Switchboard.Proofs.Membership.Lifecycle
import Switchboard.Proofs.Routing.Passage

/-!
# Direct messages

A direct message that comes in at any shard reaches the one connection of its target in its frames,
each of them once, and in order if a shard has one processor only; or it is kept, if the target is
away. That is so whichever shard it comes in at, whichever shard the target is at, and in whatever
order processors and coordinators do their work: `outcome_of_enqueue`.

`Handled` says how far a message may have come. Every action keeps it (`handled_act`), and from
every such state the message can be brought to its end (`handled_settles`).
-/

namespace Switchboard

/-- What processors, coordinators, the assistant and the consumer do, not the sessions. -/
def Action.handles : Action → Bool
  | .take _ | .finish .. | .relay _ | .sweep _ | .answer | .consume => true
  | .read _ | .write _ | .ping _ | .conclude _ => false

@[elab_as_elim]
theorem Action.handles_cases {motive : (action : Action) → action.handles = true → Prop}
    (take : ∀ id, motive (.take id) rfl) (finish : ∀ id slot, motive (.finish id slot) rfl)
    (relay : ∀ id, motive (.relay id) rfl) (sweep : ∀ id, motive (.sweep id) rfl)
    (answer : motive .answer rfl) (consume : motive .consume rfl) :
    ∀ (action : Action) (h : action.handles = true), motive action h
  | .take id, _ => take id
  | .finish id slot, _ => finish id slot
  | .relay id, _ => relay id
  | .sweep id, _ => sweep id
  | .answer, _ => answer
  | .consume, _ => consume

namespace Exchange

/-! ## How far a message may have come -/

/-- The task that comes of a message that comes in. -/
def inbound (e : Envelope) (raw : Bytes) : Task := { envelope := e, raw, origin := .inbound }

/-- What a message may have come to once it is routed. -/
inductive Sent (x : Exchange) (e : Envelope) (raw : Bytes) : View → Prop
  /-- Its frames are on their way to the connection of its target, or have all arrived. -/
  | passing {n owner : Nat} {session : Session} {p : Passage}
      (held : x.holder? owner e.recipient = some session) (perm : p.frames.Perm (x.frames e raw))
      (order : x.processors = 1 → p.inHand.length ≤ 1 ∧ p.frames = x.frames e raw) :
      Sent x e raw (x.view.passing n owner session e.recipient p)
  /-- Its target is away. -/
  | kept {n : Nat} {kept : OfflineStore} (away : ∀ shard, x.holder? shard e.recipient = none)
      (what : e.Kept e.recipient x.now x.issued n kept) :
      Sent x e raw { x.view with offline := x.services.offline ++ kept, issued := n }

/-- How far a message may have come that came in at a shard. -/
inductive Handled (x : Exchange) (shard : Nat) (e : Envelope) (raw : Bytes) : View → Prop
  | queued : Handled x shard e raw (x.view.setTraffic shard { work := [inbound e raw] })
  | taken : Handled x shard e raw (x.view.setTraffic shard { inHand := [inbound e raw] })
  | sent {v : View} (h : Sent x e raw v) : Handled x shard e raw v

section Handled

variable {x y : Exchange} {shard : Nat} {e : Envelope} {raw : Bytes} {v : View}

theorem Sent.bare (h : Sent x e raw v) : v.bare = x.bare := by
  cases h with
  | passing held perm order => rfl
  | kept away what => rfl

theorem Handled.bare (h : Handled x shard e raw v) : v.bare = x.bare := by
  cases h with
  | queued => rfl
  | taken => rfl
  | sent h => exact h.bare

/-- At a shard where nothing waits, processors and coordinator have nothing to do. -/
theorem take_of_idle (h : y.view.traffic shard = {}) : y.take shard = y :=
  take_of_nil (by rw [h])

theorem relay_of_idle (h : y.view.traffic shard = {}) : y.relay shard = y :=
  relay_of_nil (by rw [h])

theorem finish_of_idle (h : y.view.traffic shard = {}) (slot : Nat) : y.finish shard slot = y :=
  finish_of_none (by rw [h]; rfl)

/-- All frames have arrived. -/
theorem passing_arrived (hrest : x.AtRest) (n owner : Nat)
    (session : Session) (target : String) (frames : List Bytes) :
    x.view.passing n owner session target ⟨frames, [], [], []⟩
      = { x.view with issued := n }.post session frames := by
  have hidle : Passage.traffic ⟨frames, [], [], []⟩ target = x.view.traffic owner :=
    (hrest owner).symm
  rw [View.passing, hidle]
  exact View.setTraffic_self ({ x.view with issued := n }.post session frames) owner

/-- No frame has been taken up yet. -/
theorem passing_handed (hrest : x.AtRest) (n owner : Nat)
    (session : Session) (target : String) (frames : List Bytes) :
    x.view.passing n owner session target ⟨[], [], [], frames⟩
      = { x.view with issued := n }.setTraffic owner
        { x.view.traffic owner with
          forward := (x.view.traffic owner).forward ++ frames.map (Handover.mk target) } := by
  rw [View.passing, View.post_nil, hrest owner]
  rfl

/-- Routed at the shard of its target, the message goes to the connection at once. -/
theorem sent_of_here (hx : x.Ready (x.frames e raw).length) (he : x.Direct e)
    (hshard : (x.shard? shard).isSome) (hy : y.view = x.view)
    (hon : y.services.presence.isOnline e.recipient = true) {session : Session}
    (hheld : x.holder? shard e.recipient = some session) :
    Sent x e raw (y.routeTask shard (inbound e raw)).view := by
  have hbare : y.bare = x.bare := congrArg View.bare hy
  have hissued : y.issued = x.issued := congrArg View.issued hy
  have hframes := frames_of_bare hbare hissued e raw
  have hroom : y.view.CanPost session (y.frames e raw).length := by
    rw [hframes, hy]
    exact hx.outbound shard e.recipient session hheld
  obtain ⟨n, -, hview⟩ := view_routeTask_of_here (plain_of_bare hbare hx.plain)
    (direct_of_bare hbare hissued he) (isSome_shard?_of_bare hbare hshard) hon
    ((holder?_of_bare hbare shard e.recipient).trans hheld) hroom
  have hall : (Passage.mk (x.frames e raw) [] [] []).frames = x.frames e raw := by
    simp only [Passage.frames, List.append_nil]
  rw [inbound, hview, hframes, hy,
    ← passing_arrived hx.rest n shard session e.recipient (x.frames e raw)]
  exact .passing hheld (List.Perm.of_eq hall) fun _ => ⟨Nat.zero_le _, hall⟩

/-- Routed at another shard, the message is handed over to that of its target. -/
theorem sent_of_elsewhere (hx : x.Ready (x.frames e raw).length) (he : x.Direct e)
    (hshard : (x.shard? shard).isSome) (hy : y.view = x.view)
    (hon : y.services.presence.isOnline e.recipient = true) {owner : Nat} {session : Session}
    (hheld : x.holder? owner e.recipient = some session) (hne : owner ≠ shard) :
    Sent x e raw (y.routeTask shard (inbound e raw)).view := by
  have hbare : y.bare = x.bare := congrArg View.bare hy
  have hissued : y.issued = x.issued := congrArg View.issued hy
  have hframes := frames_of_bare hbare hissued e raw
  have hagrees := hx.agrees e.recipient
  have hnone : x.holder? shard e.recipient = none := by
    cases hs : x.holder? shard e.recipient with
    | none => rfl
    | some τ => exact absurd (hagrees.unique owner shard session τ hheld hs) hne
  have hindex : y.pool.index.get? e.recipient = some owner := by
    rw [index_of_bare hbare]
    exact (hagrees.index owner).2 ⟨session, hheld⟩
  have hroom : y.view.CanForward owner (y.frames e raw).length := by
    rw [hframes, hy]
    exact hx.forward owner (isSome_shard?_of_holder? hheld)
  obtain ⟨n, -, hview⟩ := view_routeTask_of_elsewhere (plain_of_bare hbare hx.plain)
    (direct_of_bare hbare hissued he) (isSome_shard?_of_bare hbare hshard) hon
    ((holder?_of_bare hbare shard e.recipient).trans hnone) hindex hne hroom
  rw [inbound, hview, hframes, hy,
    ← passing_handed hx.rest n owner session e.recipient (x.frames e raw)]
  exact .passing hheld (List.Perm.refl _) fun _ => ⟨Nat.zero_le _, rfl⟩

/-- A message to somebody who is not connected is kept. -/
theorem sent_of_away (hx : x.Plain) (he : x.Direct e) (hshard : (x.shard? shard).isSome)
    (hy : y.view = x.view) (hoff : y.services.presence.isOnline e.recipient = false)
    (haway : ∀ s, x.holder? s e.recipient = none) :
    Sent x e raw (y.routeTask shard (inbound e raw)).view := by
  have hbare : y.bare = x.bare := congrArg View.bare hy
  have hissued : y.issued = x.issued := congrArg View.issued hy
  have hoffline : y.services.offline = x.services.offline := congrArg View.offline hy
  obtain ⟨n, kept, -, hkept, hview⟩ := view_routeTask_of_offline (plain_of_bare hbare hx)
    (direct_of_bare hbare hissued he) (isSome_shard?_of_bare hbare hshard) hoff
  rw [inbound, hview, hy, hoffline]
  rw [hissued, now_of_bare hbare] at hkept
  exact .kept haway hkept

/-- **Routing the message sends its frames on their way, or keeps it.** -/
theorem sent_routeTask (hx : x.Ready (x.frames e raw).length) (he : x.Direct e)
    (hshard : (x.shard? shard).isSome) (hy : y.view = x.view) :
    Sent x e raw (y.routeTask shard (inbound e raw)).view := by
  have hagrees := hx.agrees e.recipient
  have honline : y.services.presence.isOnline e.recipient = x.roster.online e.recipient :=
    isOnline_of_bare (congrArg View.bare hy) e.recipient
  by_cases hconnected : ∃ owner session, x.holder? owner e.recipient = some session
  · obtain ⟨owner, session, hheld⟩ := hconnected
    have hindex := (hagrees.index owner).2 ⟨session, hheld⟩
    have hon := honline.trans (hagrees.online.2 ⟨owner, hindex⟩)
    by_cases howner : owner = shard
    · exact sent_of_here hx he hshard hy hon (howner ▸ hheld)
    · exact sent_of_elsewhere hx he hshard hy hon hheld howner
  · -- nobody is connected, and so the presence bit is not set either
    have haway : ∀ s, x.holder? s e.recipient = none := by
      intro s
      cases hs : x.holder? s e.recipient with
      | none => rfl
      | some τ => exact absurd ⟨s, τ, hs⟩ hconnected
    have hoff : y.services.presence.isOnline e.recipient = false := by
      rw [honline, Bool.eq_false_iff]
      intro hon
      obtain ⟨owner, howner⟩ := hagrees.online.1 hon
      obtain ⟨τ, hτ⟩ := (hagrees.index owner).1 howner
      exact hconnected ⟨owner, τ, hτ⟩
    exact sent_of_away hx.plain he hshard hy hoff haway

/-- Where something is on its way at one shard only, that is all there is. -/
theorem traffic_of_setTraffic (hrest : x.AtRest) {t : Traffic}
    (hv : y.view = x.view.setTraffic shard t) (id : Nat) :
    y.view.traffic id = if id = shard then t else {} := by
  rw [hv, View.setTraffic]
  exact congrArg (ite (id = shard) t) (hrest id)

/-- What is empty in all there is, is empty at every shard. -/
theorem part_of_setTraffic {β : Type} (part : Traffic → β) (hrest : x.AtRest) {t : Traffic}
    (hv : y.view = x.view.setTraffic shard t) (ht : part t = part {}) (id : Nat) :
    part (y.view.traffic id) = part {} := by
  rw [traffic_of_setTraffic hrest hv]
  split
  · exact ht
  · rfl

theorem sent_take (hx : x.Ready (x.frames e raw).length) (h : Sent x e raw y.view) (id : Nat) :
    Sent x e raw (y.take id).view := by
  have hbare : y.bare = x.bare := h.bare
  generalize hv : y.view = v at h
  cases h with
  | @passing n owner session p held perm order =>
      by_cases hid : id = owner
      · subst hid
        cases hqueued : p.queued with
        | nil =>
            rw [take_of_nil (by rw [traffic_of_passing hv, Passage.traffic, hqueued]; rfl), hv]
            exact .passing held perm order
        | cons frame rest =>
            by_cases hfree : p.inHand.length < y.processors
            · rw [passing_take hv hqueued hfree]
              have hsame := Passage.frames_take hqueued
              refine .passing held (by rwa [hsame]) fun hone => ?_
              refine ⟨?_, hsame.trans (order hone).2⟩
              -- the only processor was free
              rw [processors, config_of_bare hbare, ← processors, hone] at hfree
              rw [Passage.take, List.length_append, List.length_singleton]
              omega
            · rw [take_of_busy, hv]
              · exact .passing held perm order
              · rw [traffic_of_passing hv, Passage.traffic, List.length_map]
                exact hfree
      · rw [take_of_idle (traffic_of_passing_ne hx hv hid), hv]
        exact .passing held perm order
  | kept away what =>
      rw [take_of_idle (by rw [hv]; exact hx.rest id), hv]
      exact .kept away what

theorem sent_relay (hx : x.Ready (x.frames e raw).length) (he : x.Direct e)
    (hdecode : Envelope.decode raw = .ok e) (h : Sent x e raw y.view) (id : Nat) :
    Sent x e raw (y.relay id).view := by
  generalize hv : y.view = v at h
  cases h with
  | @passing n owner session p held perm order =>
      by_cases hid : id = owner
      · subst hid
        cases hhanded : p.handed with
        | nil =>
            rw [relay_of_nil (by rw [traffic_of_passing hv, Passage.traffic, hhanded]; rfl), hv]
            exact .passing held perm order
        | cons frame rest =>
            obtain ⟨f, hf⟩ := decode_of_mem_frames he hdecode
              (perm.subset (p.mem_frames_of_handed (hhanded ▸ List.mem_cons_self)))
            rw [passing_relay hx held hv perm.length_eq hhanded hf]
            have hsame := Passage.frames_relay hhanded
            refine .passing held (by rwa [hsame]) fun hone => ?_
            exact ⟨(order hone).1, hsame.trans (order hone).2⟩
      · rw [relay_of_idle (traffic_of_passing_ne hx hv hid), hv]
        exact .passing held perm order
  | kept away what =>
      rw [relay_of_idle (by rw [hv]; exact hx.rest id), hv]
      exact .kept away what

theorem sent_finish (hx : x.Ready (x.frames e raw).length) (h : Sent x e raw y.view)
    (id slot : Nat) : Sent x e raw (y.finish id slot).view := by
  generalize hv : y.view = v at h
  cases h with
  | @passing n owner session p held perm order =>
      by_cases hid : id = owner
      · subst hid
        cases hinHand : p.inHand[slot]? with
        | none =>
            have hnone : (y.view.traffic id).inHand[slot]? = none := by
              rw [traffic_of_passing hv, Passage.traffic, List.getElem?_map, hinHand]
              rfl
            rw [finish_of_none hnone, hv]
            exact .passing held perm order
        | some frame =>
            rw [passing_finish hx held hv perm.length_eq hinHand]
            refine .passing held ((Passage.frames_finish_perm hinHand).trans perm) fun hone => ?_
            obtain ⟨hsingle, heq⟩ := order hone
            refine ⟨?_, (Passage.frames_finish_of_single hinHand hsingle).trans heq⟩
            exact Nat.le_trans (List.length_eraseIdx_le ..) hsingle
      · rw [finish_of_idle (traffic_of_passing_ne hx hv hid), hv]
        exact .passing held perm order
  | kept away what =>
      rw [finish_of_idle (by rw [hv]; exact hx.rest id), hv]
      exact .kept away what

/-- A processor takes a task that waits alone. -/
theorem take_of_queued {task : Task} (hv : y.view = x.view.setTraffic shard { work := [task] }) :
    (y.take shard).view = x.view.setTraffic shard { inHand := [task] } := by
  have htraffic : y.view.traffic shard = { work := [task] } := by
    rw [hv, View.traffic_setTraffic]
  have hfree : (y.view.traffic shard).inHand.length < y.processors := by
    rw [htraffic]
    exact Nat.lt_of_lt_of_le Nat.zero_lt_one (Nat.le_max_left 1 _)
  rw [view_take (by rw [htraffic]) hfree, htraffic, hv, View.setTraffic_setTraffic]
  rfl

theorem handled_take (hx : x.Ready (x.frames e raw).length) (h : Handled x shard e raw y.view)
    (id : Nat) : Handled x shard e raw (y.take id).view := by
  generalize hv : y.view = v at h
  cases h with
  | queued =>
      by_cases hid : id = shard
      · subst hid
        rw [take_of_queued hv]
        exact .taken
      · have htraffic := traffic_of_setTraffic hx.rest hv id
        rw [if_neg hid] at htraffic
        rw [take_of_idle htraffic, hv]
        exact .queued
  | taken =>
      have hwork : (y.view.traffic id).work = [] :=
        part_of_setTraffic Traffic.work hx.rest hv rfl id
      rw [take_of_nil hwork, hv]
      exact .taken
  | sent h => exact .sent (sent_take hx (hv ▸ h) id)

theorem handled_relay (hx : x.Ready (x.frames e raw).length) (he : x.Direct e)
    (hdecode : Envelope.decode raw = .ok e) (h : Handled x shard e raw y.view) (id : Nat) :
    Handled x shard e raw (y.relay id).view := by
  generalize hv : y.view = v at h
  cases h with
  | queued =>
      have hforward : (y.view.traffic id).forward = [] :=
        part_of_setTraffic Traffic.forward hx.rest hv rfl id
      rw [relay_of_nil hforward, hv]
      exact .queued
  | taken =>
      have hforward : (y.view.traffic id).forward = [] :=
        part_of_setTraffic Traffic.forward hx.rest hv rfl id
      rw [relay_of_nil hforward, hv]
      exact .taken
  | sent h => exact .sent (sent_relay hx he hdecode (hv ▸ h) id)

/-- The processor that has the message routes it, whatever slot it took it in. -/
theorem sent_finish_of_taken (hx : x.Ready (x.frames e raw).length) (he : x.Direct e)
    (hshard : (x.shard? shard).isSome)
    (hv : y.view = x.view.setTraffic shard { inHand := [inbound e raw] }) :
    Sent x e raw (y.finish shard 0).view := by
  have htraffic : y.view.traffic shard = { inHand := [inbound e raw] } := by
    rw [hv, View.traffic_setTraffic]
  have hslot : (y.view.traffic shard).inHand[0]? = some (inbound e raw) := by
    rw [htraffic]
    rfl
  -- with the task put down nothing is on its way: the exchange is at rest again
  obtain ⟨z, hfinish, hz⟩ := view_finish hslot
  rw [hfinish]
  refine sent_routeTask hx he hshard ?_
  rw [hz, htraffic, hv, View.setTraffic_setTraffic]
  exact (congrArg (x.view.setTraffic shard) (hx.rest shard).symm).trans (View.setTraffic_self ..)

theorem handled_finish (hx : x.Ready (x.frames e raw).length) (he : x.Direct e)
    (hshard : (x.shard? shard).isSome) (h : Handled x shard e raw y.view) (id slot : Nat) :
    Handled x shard e raw (y.finish id slot).view := by
  generalize hv : y.view = v at h
  cases h with
  | queued =>
      have hinHand : (y.view.traffic id).inHand[slot]? = none :=
        part_of_setTraffic (·.inHand[slot]?) hx.rest hv rfl id
      rw [finish_of_none hinHand, hv]
      exact .queued
  | taken =>
      have htraffic := traffic_of_setTraffic hx.rest hv id
      by_cases hid : id = shard
      · subst hid
        cases slot with
        | zero => exact .sent (sent_finish_of_taken hx he hshard hv)
        | succ slot =>
            rw [finish_of_none (by rw [htraffic, if_pos rfl]; rfl), hv]
            exact .taken
      · rw [if_neg hid] at htraffic
        rw [finish_of_idle htraffic, hv]
        exact .taken
  | sent h => exact .sent (sent_finish hx (hv ▸ h) id slot)

theorem answer_of_nil (h : y.pool.prompts = []) : y.answer = y := by
  rw [answer, h]

theorem consume_of_off (h : y.services.publishing = .off) : y.consume = y := by
  rw [consume, h]
  cases y.pool.consumer with
  | none => rfl
  | some subscriber => rfl

/-- **Whatever is done next, the message comes on in an orderly way.** -/
theorem handled_act (hx : x.Ready (x.frames e raw).length) (he : x.Direct e)
    (hdecode : Envelope.decode raw = .ok e) (hshard : (x.shard? shard).isSome)
    (h : Handled x shard e raw y.view) {action : Action} (haction : action.handles = true) :
    Handled x shard e raw (y.act action).view := by
  have hbare : y.bare = x.bare := h.bare
  cases action, haction using Action.handles_cases with
  | take id => exact handled_take hx h id
  | finish id slot => exact handled_finish hx he hshard h id slot
  | relay id => exact handled_relay hx he hdecode h id
  | sweep id => rwa [act, view_sweep]
  | answer =>
      rw [act, answer_of_nil]
      · exact h
      · rw [prompts_of_bare hbare]
        exact hx.noPrompt
  | consume =>
      rw [act, consume_of_off (plain_of_bare hbare hx.plain).off]
      exact h

theorem handled_run (hx : x.Ready (x.frames e raw).length) (he : x.Direct e)
    (hdecode : Envelope.decode raw = .ok e) (hshard : (x.shard? shard).isSome)
    (h : Handled x shard e raw y.view) {history : List Action}
    (hhistory : ∀ action ∈ history, action.handles = true) :
    Handled x shard e raw (y.run history).view := by
  induction history generalizing y with
  | nil => exact h
  | cons action history ih =>
      have hact := handled_act hx he hdecode hshard h (hhistory action List.mem_cons_self)
      exact ih hact fun a ha => hhistory a (List.mem_cons_of_mem _ ha)

/-! ## To the end -/

/-- What is on its way can be brought to its end. -/
def Settles (y : Exchange) : Prop :=
  ∃ more : List Action, (∀ action ∈ more, action.handles = true) ∧ (y.run more).AtRest

theorem settles_of_atRest (h : y.AtRest) : y.Settles :=
  ⟨[], fun _ hmem => absurd hmem List.not_mem_nil, h⟩

theorem settles_of_act {action : Action} (haction : action.handles = true)
    (h : (y.act action).Settles) : y.Settles := by
  obtain ⟨more, hmore, hrest⟩ := h
  refine ⟨action :: more, ?_, hrest⟩
  intro a ha
  rcases List.mem_cons.1 ha with rfl | ha
  · exact haction
  · exact hmore a ha

/-- As long as frames are on their way, one of them can be brought on. -/
theorem passing_advances (hx : x.Ready (x.frames e raw).length) (he : x.Direct e)
    (hdecode : Envelope.decode raw = .ok e) {n owner : Nat} {session : Session} {p : Passage}
    (hheld : x.holder? owner e.recipient = some session)
    (hv : y.view = x.view.passing n owner session e.recipient p)
    (hperm : p.frames.Perm (x.frames e raw)) (htodo : p.todo ≠ 0) :
    ∃ action p', action.handles = true ∧
      (y.act action).view = x.view.passing n owner session e.recipient p' ∧
      p'.frames.Perm (x.frames e raw) ∧ p'.todo + 1 = p.todo := by
  -- the frame that has come furthest is the one to bring on
  cases hinHand : p.inHand with
  | cons frame rest =>
      have hslot : p.inHand[0]? = some frame := by
        rw [hinHand]
        rfl
      exact ⟨.finish owner 0, p.finish 0 frame, rfl,
        passing_finish hx hheld hv hperm.length_eq hslot,
        (Passage.frames_finish_perm hslot).trans hperm, Passage.todo_finish hslot⟩
  | nil =>
      cases hqueued : p.queued with
      | cons frame rest =>
          have hfree : p.inHand.length < y.processors := by
            rw [hinHand]
            exact Nat.lt_of_lt_of_le Nat.zero_lt_one (Nat.le_max_left 1 _)
          exact ⟨.take owner, p.take frame rest, rfl, passing_take hv hqueued hfree,
            by rwa [Passage.frames_take hqueued], Passage.todo_take hqueued⟩
      | nil =>
          cases hhanded : p.handed with
          | cons frame rest =>
              obtain ⟨f, hf⟩ := decode_of_mem_frames he hdecode
                (hperm.subset (p.mem_frames_of_handed (hhanded ▸ List.mem_cons_self)))
              exact ⟨.relay owner, p.relay frame rest, rfl,
                passing_relay hx hheld hv hperm.length_eq hhanded hf,
                by rwa [Passage.frames_relay hhanded], Passage.todo_relay hhanded⟩
          | nil =>
              refine absurd ?_ htodo
              rw [Passage.todo, hinHand, hqueued, hhanded]
              rfl

/-- Frames on their way can all be brought to the connection they are for. -/
theorem passing_settles (hx : x.Ready (x.frames e raw).length) (he : x.Direct e)
    (hdecode : Envelope.decode raw = .ok e) {n owner : Nat} {session : Session} {p : Passage}
    (hheld : x.holder? owner e.recipient = some session)
    (hv : y.view = x.view.passing n owner session e.recipient p)
    (hperm : p.frames.Perm (x.frames e raw)) : y.Settles := by
  -- on the steps that the frames still have to take
  induction htodo : p.todo generalizing y p with
  | zero =>
      refine settles_of_atRest fun id => ?_
      by_cases hid : id = owner
      · rw [hid, traffic_of_passing hv, Passage.traffic_of_todo htodo]
      · exact traffic_of_passing_ne hx hv hid
  | succ todo ih =>
      obtain ⟨action, p', haction, hv', hperm', htodo'⟩ :=
        passing_advances hx he hdecode hheld hv hperm (by omega)
      exact settles_of_act haction (ih hv' hperm' (by omega))

theorem sent_settles (hx : x.Ready (x.frames e raw).length) (he : x.Direct e)
    (hdecode : Envelope.decode raw = .ok e) (h : Sent x e raw y.view) : y.Settles := by
  generalize hv : y.view = v at h
  cases h with
  | passing held perm order => exact passing_settles hx he hdecode held hv perm
  | kept away what =>
      refine settles_of_atRest fun id => ?_
      rw [hv]
      exact hx.rest id

/-- **However far a message has come, it can be brought to its end.** -/
theorem handled_settles (hx : x.Ready (x.frames e raw).length) (he : x.Direct e)
    (hdecode : Envelope.decode raw = .ok e) (hshard : (x.shard? shard).isSome)
    (h : Handled x shard e raw y.view) : y.Settles := by
  -- once a processor has the message, routing it is enough to go on with its frames
  have htaken : ∀ z : Exchange, z.view = x.view.setTraffic shard { inHand := [inbound e raw] } →
      z.Settles := by
    intro z hz
    have hsent : Sent x e raw (z.act (.finish shard 0)).view :=
      sent_finish_of_taken hx he hshard hz
    exact settles_of_act rfl (sent_settles hx he hdecode hsent)
  generalize hv : y.view = v at h
  cases h with
  | queued =>
      have hnext : (y.act (.take shard)).Settles := htaken _ (take_of_queued hv)
      exact settles_of_act rfl hnext
  | taken => exact htaken y hv
  | sent h => exact sent_settles hx he hdecode (hv ▸ h)

/-- What a direct message has come to when nothing is on its way any more. -/
structure Outcome (x y : Exchange) (e : Envelope) (raw : Bytes) : Prop where
  /-- Nothing else has changed. -/
  bare : y.bare = x.bare
  /-- If its target was connected, the connection has received the frames of the message, nobody else
  has received anything, and nothing was kept. -/
  connected : ∀ shard session, x.holder? shard e.recipient = some session →
    y.services.offline = x.services.offline ∧
    ∃ received : List Bytes, received.Perm (x.frames e raw) ∧
      (x.processors = 1 → received = x.frames e raw) ∧
      ∀ τ, y.mail τ = if τ = session then (x.mail τ).map (·.add received) else x.mail τ
  /-- If it was away, nobody has received anything, and the message was kept. -/
  away : (∀ shard, x.holder? shard e.recipient = none) →
    (∀ τ, y.mail τ = x.mail τ) ∧
    ∃ kept, e.Kept e.recipient x.now x.issued y.issued kept ∧
      y.services.offline = x.services.offline ++ kept

theorem outcome_of_sent (hx : x.Ready (x.frames e raw).length) (h : Sent x e raw y.view)
    (hrest : y.AtRest) : Outcome x y e raw := by
  have hbare : y.bare = x.bare := h.bare
  generalize hv : y.view = v at h
  cases h with
  | @passing n owner session p held perm order =>
      have hidle : p.traffic e.recipient = {} := (traffic_of_passing hv).symm.trans (hrest owner)
      have harrived : p.frames = p.arrived := Passage.frames_of_idle hidle
      rw [harrived] at perm order
      refine ⟨hbare, fun s τ hτ => ?_, fun haway => ?_⟩
      · -- nobody else than the session holds the target, so the connection is the one that was asked for
        obtain rfl := (hx.agrees e.recipient).unique s owner τ session hτ held
        obtain rfl := Option.some.inj (hτ.symm.trans held)
        exact ⟨congrArg View.offline hv, p.arrived, perm, fun hone => (order hone).2,
          fun τ' => congrFun (congrArg View.mail hv) τ'⟩
      · exact absurd (held.symm.trans (haway owner)) (Option.some_ne_none _)
  | @kept n kept away what =>
      have hissued : y.issued = n := congrArg View.issued hv
      refine ⟨hbare, fun s τ hτ => ?_, fun _ => ?_⟩
      · exact absurd (hτ.symm.trans (away s)) (Option.some_ne_none _)
      · exact ⟨fun τ => congrFun (congrArg View.mail hv) τ, kept, by rwa [hissued],
          congrArg View.offline hv⟩

theorem outcome_of_handled (hx : x.Ready (x.frames e raw).length)
    (h : Handled x shard e raw y.view) (hrest : y.AtRest) : Outcome x y e raw := by
  generalize hv : y.view = v at h
  cases h with
  | queued =>
      have htraffic : y.view.traffic shard = { work := [inbound e raw] } := by
        rw [hv, View.traffic_setTraffic]
      have hwork := congrArg Traffic.work (htraffic.symm.trans (hrest shard))
      exact absurd hwork (List.cons_ne_nil _ _)
  | taken =>
      have htraffic : y.view.traffic shard = { inHand := [inbound e raw] } := by
        rw [hv, View.traffic_setTraffic]
      have hinHand := congrArg Traffic.inHand (htraffic.symm.trans (hrest shard))
      exact absurd hinHand (List.cons_ne_nil _ _)
  | sent h => exact outcome_of_sent hx (hv ▸ h) hrest

/-- **A direct message that comes in at any shard reaches the connection of its target in its frames,
each of them once; or it is kept, unless it is a call signal.** Whatever processors and coordinators
do, and in whatever order, the message can be brought to its end, and it always comes to the same. -/
theorem outcome_of_enqueue (hx : x.Ready (x.frames e raw).length) (he : x.Direct e)
    (hdecode : Envelope.decode raw = .ok e) (hshard : (x.shard? shard).isSome) :
    ∃ y, x.enqueue shard raw none = (.ok (), y) ∧ x.enqueueEnvelope shard e raw = (.ok (), y) ∧
      ∀ history : List Action, (∀ action ∈ history, action.handles = true) →
        (∃ more, (∀ action ∈ more, action.handles = true) ∧
          ((y.run history).run more).AtRest) ∧
        ((y.run history).AtRest → Outcome x (y.run history) e raw) := by
  have hroom : x.view.CanWork shard 1 :=
    (hx.work shard hshard).mono (List.length_pos_iff.2 (Envelope.frames_ne_nil _ _ _ e raw))
  obtain ⟨y, hsubmit, hview⟩ := view_submit hroom (inbound e raw)
  have hqueued : Handled x shard e raw y.view := by
    rw [hview, hx.rest shard]
    exact .queued
  refine ⟨y, ?_, hsubmit, fun history hhistory => ?_⟩
  · rw [enqueue, hdecode]
    exact hsubmit
  · have hrun := handled_run hx he hdecode hshard hqueued hhistory
    exact ⟨handled_settles hx he hdecode hshard hrun, outcome_of_handled hx hrun⟩

end Handled

/-- Two shards, with Bob's connection at the first of them. -/
def withBob : Exchange :=
  ((Lobby.start (.new { pool.initialShards := 2, pool.maxShards := 2 } .inMemory 0)).run
    [.accept "bob" none 8, .register 0]).exchange

theorem ready_withBob : withBob.Ready 1 where
  plain := by
    refine ⟨rfl, rfl, rfl, ?_⟩
    intro shard s hs
    rcases shard with _ | _ | shard
    · obtain rfl := Option.some.inj hs
      rfl
    · obtain rfl := Option.some.inj hs
      rfl
    · exact absurd hs.symm (Option.some_ne_none _)
  rest := by
    intro shard
    rcases shard with _ | _ | shard
    · rfl
    · rfl
    · rfl
  noPrompt := rfl
  agrees := by
    have hvacant : (Exchange.new { pool.initialShards := 2, pool.maxShards := 2 }
      .inMemory 0).Vacant := Exchange.vacant_new _ _ rfl rfl
    have hpermits : (Lobby.start (.new { pool.initialShards := 2, pool.maxShards := 2 } .inMemory
      0)).Permits [.accept "bob" none 8, .register 0] := by decide
    obtain ⟨⟨m, hm⟩, -⟩ := Lobby.refines_run_some (Lobby.refines_start hvacant) hpermits
    exact hm.reads.agrees
  work := by
    intro shard hshard
    rcases shard with _ | _ | shard
    · exact ⟨_, rfl, by decide⟩
    · exact ⟨_, rfl, by decide⟩
    · exact absurd hshard Bool.false_ne_true
  forward := by
    intro shard hshard
    rcases shard with _ | _ | shard
    · exact ⟨_, rfl, by decide⟩
    · exact ⟨_, rfl, by decide⟩
    · exact absurd hshard Bool.false_ne_true
  outbound := by
    intro shard identity session h
    rcases shard with _ | _ | shard
    · have hbob : (if "bob" = identity then some 0 else none) = some session := h
      split at hbob
      · obtain rfl := Option.some.inj hbob
        exact ⟨_, rfl, rfl, rfl, by decide⟩
      · exact absurd hbob.symm (Option.some_ne_none _)
    · exact absurd h.symm (Option.some_ne_none _)
    · exact absurd h.symm (Option.some_ne_none _)

theorem keyed_withBob : withBob.ground.Keyed := by
  intro session identity session' h
  rcases session with _ | session
  · cases h
    rfl
  · exact absurd h.symm (Option.some_ne_none _)

/-- A short message from Ann. -/
def fromAnn (recipient : String) (kind : ContentKind) : Envelope :=
  { Envelope.direct "ann" recipient kind "hello" 1 with messageId := "m1" }

theorem length_fromAnn {recipient : String} (hsize : recipient.utf8ByteSize = 3)
    (kind : ContentKind) : (fromAnn recipient kind).encodedLength = 94 := by
  show Envelope.emptySize + "ann".utf8ByteSize + recipient.utf8ByteSize + "".utf8ByteSize
    + "hello".utf8ByteSize + "m1".utf8ByteSize + "".utf8ByteSize + ([] : Bytes).length = 94
  rw [hsize]
  rfl

theorem direct_fromAnn {recipient : String} (hsize : recipient.utf8ByteSize = 3)
    (kind : ContentKind) : withBob.Direct (fromAnn recipient kind) := by
  have hnot : ¬ (fromAnn recipient kind).isOversized withBob.config.fragment.limits = true := by
    rw [Envelope.isOversized, length_fromAnn hsize]
    decide
  refine ⟨?_, rfl, rfl, rfl, ?_, fun h => absurd h hnot⟩
  · intro hnil
    have hempty : (fromAnn recipient kind).recipient = recipient := rfl
    rw [← hempty, hnil] at hsize
    exact absurd hsize (by decide)
  · have hcompleted : (fromAnn recipient kind).completed (formatId withBob.issued)
        withBob.timestamp = fromAnn recipient kind := rfl
    rw [hcompleted, Envelope.length_encode, length_fromAnn hsize]
    decide

theorem decode_fromAnn {recipient : String} (hsize : recipient.utf8ByteSize = 3)
    (kind : ContentKind) :
    Envelope.decode (fromAnn recipient kind).encode = .ok (fromAnn recipient kind) := by
  refine Envelope.decode_encode (Envelope.fits_of_length ?_)
  rw [Envelope.length_encode, length_fromAnn hsize]
  decide

theorem outcome_of_enqueue_elsewhere : ∃ y history,
    withBob.enqueue 1 (fromAnn "bob" .text).encode none = (.ok (), y) ∧ (y.run history).AtRest ∧
      Outcome withBob (y.run history) (fromAnn "bob" .text) (fromAnn "bob" .text).encode := by
  have hready : withBob.Ready
      (withBob.frames (fromAnn "bob" .text) (fromAnn "bob" .text).encode).length := ready_withBob
  have hshard : (withBob.shard? 1).isSome := rfl
  obtain ⟨y, henqueue, -, hy⟩ := outcome_of_enqueue hready (direct_fromAnn rfl .text)
    (decode_fromAnn rfl .text) hshard
  obtain ⟨⟨more, hmore, hrest⟩, -⟩ := hy [] fun action h => absurd h List.not_mem_nil
  exact ⟨y, more, henqueue, hrest, (hy more hmore).2 hrest⟩

/-- A voice call to somebody who is away is not kept. -/
theorem not_kept_of_call : withBob.Ready 1 ∧ withBob.Direct (fromAnn "cho" .voiceCall) ∧
    (∀ shard, withBob.holder? shard "cho" = none) ∧
    ∃ y, withBob.enqueue 0 (fromAnn "cho" .voiceCall).encode none = (.ok (), y) ∧
      (y.run [.take 0, .finish 0 0]).AtRest ∧
      ¬ ∃ record, (y.run [.take 0, .finish 0 0]).services.offline
        = withBob.services.offline ++ [record] := by
  have henqueue : withBob.enqueue 0 (fromAnn "cho" .voiceCall).encode none
      = withBob.submit 0 (inbound (fromAnn "cho" .voiceCall) (fromAnn "cho" .voiceCall).encode) := by
    rw [enqueue, decode_fromAnn rfl]
    rfl
  rw [henqueue]
  refine ⟨ready_withBob, direct_fromAnn rfl .voiceCall, ?_, _, rfl, ?_, ?_⟩
  · intro shard
    rcases shard with _ | _ | shard
    · rfl
    · rfl
    · rfl
  · intro shard
    rcases shard with _ | _ | shard
    · rfl
    · rfl
    · rfl
  · intro hkept
    obtain ⟨record, hrecord⟩ := hkept
    exact absurd hrecord (List.cons_ne_nil record []).symm

end Exchange

end Switchboard
