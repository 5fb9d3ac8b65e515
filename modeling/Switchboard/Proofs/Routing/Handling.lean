import Switchboard.Proofs.Routing.Plan

/-!
# From the queue to the end

A task waits in the queue of its shard, is taken by a processor, and is routed; what routing it has
set going comes to its end some time later. `Handling` collects what has to be known of the last
part, and `Handling.outcome` puts the parts together: whatever is done in whatever order, the task
can be brought to its end, and whenever it has come there, it has come to what was to be shown.
-/

namespace Switchboard

namespace Exchange

section View

variable {x y : Exchange} (h : y.view = x.view)

include h

/-- Who is where does not depend on the fragments that are being joined. -/
theorem roster_of_view : y.roster = x.roster := by
  have hbare : y.bare = x.bare := bare_of_view h
  have hholder : y.holder? = x.holder? :=
    funext fun shard => funext fun identity => holder?_of_bare hbare shard identity
  have honline : y.services.presence.isOnline = x.services.presence.isOnline :=
    funext fun identity => isOnline_of_bare hbare identity
  rw [roster, roster, hholder, index_of_bare hbare, honline]

theorem owner_of_view : y.ground.owner = x.ground.owner := by
  funext session
  have hmail : y.mail session = x.mail session := congrFun (mail_of_view h) session
  have howner : ∀ z : Exchange, z.ground.owner session
      = (z.mail session).map fun b => (b.connection.identity, b.connection.session) := by
    intro z
    show (z.connection? session).map _ = ((z.connection? session).map _).map _
    rw [Option.map_map]
    rfl
  rw [howner, howner, hmail]

/-- Nor does order. -/
theorem orderly_of_view (hx : x.Orderly) : y.Orderly := by
  have hbare : y.bare = x.bare := bare_of_view h
  have hroster := roster_of_view h
  refine ⟨(outages_of_bare hbare).trans hx.well, (isReachable_of_bare hbare).trans hx.reachable, ?_,
    ?_, (prompts_of_bare hbare).trans hx.noPrompt, ?_, ?_, ?_⟩
  · intro shard s hs
    obtain ⟨t, ht, hlimits⟩ := exists_limits_of_bare hbare hs
    rw [config_of_bare hbare, hlimits]
    exact hx.limits shard t ht
  · intro shard
    rw [h]
    exact hx.rest shard
  · rw [hroster]
    exact hx.agrees
  · intro shard identity session hheld
    rw [owner_of_view h]
    exact hx.owned shard identity session ((holder?_of_bare hbare shard identity).symm.trans hheld)
  · rw [groups_of_bare hbare]
    exact hx.members

theorem Mailed.of_view {mail : Session → Option Mailbox} {sent : Nat → String → List Bytes}
    (hmail : y.Mailed mail sent) : x.Mailed mail sent := by
  have hmail' : y.mail = x.mail := mail_of_view h
  have hheld := holder?_of_bare (bare_of_view h)
  refine ⟨fun hx => ?_, fun hx => ?_⟩
  · rw [← hmail']
    exact hmail.held ((hheld _ _).trans hx)
  · rw [← hmail']
    exact hmail.others fun shard identity => by
      rw [hheld]
      exact hx shard identity

theorem Underway.of_view {due : Nat → List Handover} {offline : OfflineStore} {issued : Nat}
    {lanes : Nat → Lane} {v : View} (hv : y.Underway due offline issued lanes v) :
    x.Underway due offline issued lanes v := by
  have hbare : y.bare = x.bare := bare_of_view h
  refine ⟨⟨hv.bare.trans hbare, hv.offline, hv.issued, hv.mail.of_view h, hv.perm, ?_,
    fun id hhanded => h ▸ hv.room id hhanded⟩, hv.traffic⟩
  rw [processors, ← config_of_bare hbare, ← processors]
  exact hv.order

theorem targets_of_view (e : Envelope) : y.targets e = x.targets e := by
  rw [targets, targets, groups_of_bare (bare_of_view h)]

/-- What a message is to come to is planned without looking at the fragments. -/
theorem plan_of_view (e : Envelope) (raw : Bytes) : y.plan e raw = x.plan e raw := by
  have hbare : y.bare = x.bare := bare_of_view h
  have hissued : y.issued = x.issued := issued_of_view h
  have hnobody : y.IsForNobody e ↔ x.IsForNobody e := by
    rw [IsForNobody, IsForNobody, groups_of_bare hbare]
  have hframed : y.framed e raw = x.framed e raw := by
    rw [framed, framed, timestamp, timestamp, config_of_bare hbare, hissued, now_of_bare hbare]
  simp only [plan, hnobody, hframed, targets_of_view h, config_of_bare hbare, hissued]

theorem due_of_view (frames : List Bytes) (targets : List String) :
    y.due frames targets = x.due frames targets := by
  funext id
  simp only [due, holder?_of_bare (bare_of_view h)]

theorem absent_of_view (targets : List String) : y.absent targets = x.absent targets := by
  simp only [absent, isOnline_of_bare (bare_of_view h)]

theorem routable_of_view {e : Envelope} {raw : Bytes} (he : x.Routable e raw) :
    y.Routable e raw where
  decode := he.decode
  recipient := he.recipient
  person hkind := by
    have hassistant : y.bare.services.isAssistant e.recipient
        = x.bare.services.isAssistant e.recipient := by
      have hbare : y.bare = x.bare := bare_of_view h
      rw [hbare]
    exact hassistant.trans (he.person hkind)
  measured := by
    have hissued : y.issued = x.issued := issued_of_view h
    rw [timestamp, now_of_bare (bare_of_view h), hissued]
    exact he.measured

theorem hasRoom_of_view {shard : Nat} {due : Nat → List Handover} (hroom : x.HasRoom shard due) :
    y.HasRoom shard due :=
  ⟨h ▸ hroom.own, h ▸ hroom.work, h ▸ hroom.forward⟩

/-- What is to be published is not decided by what was joined. -/
theorem toPublish_of_view (shard : Nat) (e : Envelope) (raw : Bytes) :
    y.toPublish shard e raw = x.toPublish shard e raw := by
  rw [toPublish, toPublish, plan_of_view h, holder?_of_bare (bare_of_view h)]

theorem IsUnpublished.of_view {shard : Nat} {e : Envelope} {raw : Bytes}
    (hx : x.IsUnpublished shard e raw) : y.IsUnpublished shard e raw :=
  hx.imp (mute_of_bare (bare_of_view h)) (toPublish_of_view h shard e raw).trans

/-- **What routing a message leads to, whatever was joined before.** -/
theorem underway_routeTask {shard : Nat} {e : Envelope} {raw : Bytes} (hx : x.Orderly)
    (he : x.Routable e raw) (hunpublished : x.IsUnpublished shard e raw)
    (hroom : x.HasRoom shard (x.due (x.plan e raw).frames (x.plan e raw).targets)) :
    ∃ k : Stock, k = Stock.keepAll x.now e (x.absent (x.plan e raw).targets)
        { offline := x.services.offline, issued := (x.plan e raw).issued
          assembler := y.assembler? shard, copy := .unresolved } ∧
      x.Underway (x.due (x.plan e raw).frames (x.plan e raw).targets) k.offline k.issued
        (x.lanesFrom shard (x.plan e raw).frames (x.plan e raw).targets)
        (y.routeTask shard (inbound e raw)).view ∧
      (y.routeTask shard (inbound e raw)).assembler?
        = Function.update y.assembler? shard k.assembler := by
  have hbare : y.bare = x.bare := bare_of_view h
  have hplan := plan_of_view h e raw
  have hdue := due_of_view h (x.plan e raw).frames (x.plan e raw).targets
  have hshard : (y.shard? shard).isSome := by
    obtain ⟨t, ht, -⟩ := hroom.own
    obtain ⟨s, hs, -⟩ := exists_shard? ht
    exact isSome_shard?_of_bare hbare (by rw [hs]; rfl)
  have hroom' : y.HasRoom shard (y.due (y.plan e raw).frames (y.plan e raw).targets) := by
    rw [hplan, hdue]
    exact hasRoom_of_view h hroom
  obtain ⟨s, hroute, hs⟩ := dispatched_routeTask (orderly_of_view h hx) (routable_of_view h he)
    hshard (hunpublished.of_view h) hroom'
  have hunderway := underway_of_dispatched hroom' hs
  have hassembler := assembler?_of_dispatched hs
  have hstock : ({ y.stock shard with issued := (x.plan e raw).issued } : Stock)
      = { offline := x.services.offline, issued := (x.plan e raw).issued
          assembler := y.assembler? shard, copy := .unresolved } := by
    have hoffline : y.services.offline = x.services.offline := offline_of_view h
    rw [stock, Errand.stock, hoffline]
  have hlanes : y.lanesFrom shard (x.plan e raw).frames (x.plan e raw).targets
      = x.lanesFrom shard (x.plan e raw).frames (x.plan e raw).targets := by
    funext id
    rw [lanesFrom, lanesFrom, hdue]
  rw [hplan, absent_of_view h, now_of_bare hbare, hstock] at hunderway hassembler
  rw [hdue, hlanes] at hunderway
  rw [hroute]
  exact ⟨_, rfl, hunderway.of_view h, hassembler⟩

end View

/-! ## Handling -/

/-- How far a task may have come that came in at a shard. Of the fragments that are being joined
`C` is known until it is routed, and `R` is what is known from then on. -/
inductive Phase (x : Exchange) (shard : Nat) (task : Task) (C : (Nat → Option Assembler) → Prop)
    (R : Exchange → Prop) (y : Exchange) : Prop
  | queued (view : y.view = x.view.setTraffic shard { work := [task] }) (joined : C y.assembler?)
  | taken (view : y.view = x.view.setTraffic shard { inHand := [task] }) (joined : C y.assembler?)
  | routed (h : R y)

/-- What has to be known of a task: that routing it leads to `R`, that whatever may be done keeps
`R`, and that from there it can be brought to its end, which is `Q`. -/
structure Handling (x : Exchange) (shard : Nat) (task : Task) (allowed : Action → Bool)
    (C : (Nat → Option Assembler) → Prop) (R Q : Exchange → Prop) : Prop where
  caughtUp : x.CaughtUp
  handles : ∀ action, allowed action = true → action.handles = true
  take : allowed (.take shard) = true
  finish : allowed (.finish shard 0) = true
  sweep : ∀ (y : Exchange) (id : Nat), allowed (.sweep id) = true → C y.assembler? →
    C (y.sweep id).assembler?
  route : ∀ y : Exchange, y.view = x.view → C y.assembler? → R (y.routeTask shard task)
  act : ∀ (y : Exchange) (action : Action), allowed action = true → R y → R (y.act action)
  settles : ∀ y, R y → ∃ more : List Action, (∀ action ∈ more, allowed action = true) ∧
    Q (y.run more)
  atRest : ∀ y, Q y → y.AtRest

section Handling

variable {x y : Exchange} {shard : Nat} {task : Task} {allowed : Action → Bool}
  {C : (Nat → Option Assembler) → Prop} {R Q : Exchange → Prop}

/-- Before the task is routed, nobody but the processors of its shard has anything to do. -/
theorem act_of_waiting (hx : x.Orderly) (hcaught : x.CaughtUp) (hbare : y.bare = x.bare)
    (hforward : ∀ id, (y.view.traffic id).forward = []) {action : Action}
    (haction : action.handles = true) :
    (∃ id, action = .take id) ∨ (∃ id slot, action = .finish id slot) ∨
      (∃ id, action = .sweep id) ∨ y.act action = y := by
  cases action, haction using Action.handles_cases with
  | take id => exact .inl ⟨id, rfl⟩
  | finish id slot => exact .inr (.inl ⟨id, slot, rfl⟩)
  | sweep id => exact .inr (.inr (.inl ⟨id, rfl⟩))
  | relay id => exact .inr (.inr (.inr (relay_of_nil (hforward id))))
  | answer =>
      refine .inr (.inr (.inr (answer_of_nil ?_)))
      rw [prompts_of_bare hbare]
      exact hx.noPrompt
  | consume => exact .inr (.inr (.inr (consume_of_caughtUp (caughtUp_of_bare hbare hcaught))))

/-- A task that waits is taken, or goes on waiting. -/
theorem phase_act_of_queued (hx : x.Orderly) (h : Handling x shard task allowed C R Q)
    (hv : y.view = x.view.setTraffic shard { work := [task] }) (hjoined : C y.assembler?)
    {action : Action} (haction : allowed action = true) :
    Phase x shard task C R (y.act action) := by
  have hbare : y.bare = x.bare := bare_of_view hv
  have hforward := part_of_setTraffic Traffic.forward hx.rest hv rfl
  rcases act_of_waiting hx h.caughtUp hbare hforward (h.handles action haction) with
    ⟨id, rfl⟩ | ⟨id, slot, rfl⟩ | ⟨id, rfl⟩ | hact
  · show Phase x shard task C R (y.take id)
    -- a processor of its own shard takes it, and one of another shard finds nothing
    by_cases hid : id = shard
    · subst hid
      exact .taken (take_of_queued hv) (by rwa [assembler?_take])
    · have htraffic := traffic_of_setTraffic hx.rest hv id
      rw [if_neg hid] at htraffic
      rw [take_of_idle htraffic]
      exact .queued hv hjoined
  · have hinHand : (y.view.traffic id).inHand[slot]? = none :=
      part_of_setTraffic (·.inHand[slot]?) hx.rest hv rfl id
    rw [act, finish_of_none hinHand]
    exact .queued hv hjoined
  · exact .queued ((view_sweep y id).trans hv) (h.sweep y id haction hjoined)
  · rw [hact]
    exact .queued hv hjoined

/-- A task in hand is routed by an exchange that is otherwise at rest. -/
theorem routed_of_taken (hx : x.Orderly) (h : Handling x shard task allowed C R Q)
    (hv : y.view = x.view.setTraffic shard { inHand := [task] }) (hjoined : C y.assembler?) :
    R (y.finish shard 0) := by
  have htraffic : y.view.traffic shard = { inHand := [task] } := by
    rw [hv, View.traffic_setTraffic]
  have hslot : (y.view.traffic shard).inHand[0]? = some task := by
    rw [htraffic]
    rfl
  rw [finish_eq_routeTask hslot]
  refine h.route _ ?_ (by rwa [assembler?_putDown])
  -- with the task put down nothing is on its way
  rw [view_putDown hslot, htraffic, hv, View.setTraffic_setTraffic]
  exact (congrArg (x.view.setTraffic shard) (hx.rest shard).symm).trans (View.setTraffic_self ..)

/-- A task in hand is routed, or stays in hand. -/
theorem phase_act_of_taken (hx : x.Orderly) (h : Handling x shard task allowed C R Q)
    (hv : y.view = x.view.setTraffic shard { inHand := [task] }) (hjoined : C y.assembler?)
    {action : Action} (haction : allowed action = true) :
    Phase x shard task C R (y.act action) := by
  have hbare : y.bare = x.bare := bare_of_view hv
  have hforward := part_of_setTraffic Traffic.forward hx.rest hv rfl
  rcases act_of_waiting hx h.caughtUp hbare hforward (h.handles action haction) with
    ⟨id, rfl⟩ | ⟨id, slot, rfl⟩ | ⟨id, rfl⟩ | hact
  · have hwork : (y.view.traffic id).work = [] :=
      part_of_setTraffic Traffic.work hx.rest hv rfl id
    rw [act, take_of_nil hwork]
    exact .taken hv hjoined
  · show Phase x shard task C R (y.finish id slot)
    have htraffic := traffic_of_setTraffic hx.rest hv id
    by_cases hid : id = shard
    · subst hid
      -- it is the only one in hand, so it is in the first slot
      cases slot with
      | zero => exact .routed (routed_of_taken hx h hv hjoined)
      | succ slot =>
          rw [finish_of_none (by rw [htraffic, if_pos rfl]; rfl)]
          exact .taken hv hjoined
    · rw [if_neg hid] at htraffic
      rw [finish_of_idle htraffic]
      exact .taken hv hjoined
  · exact .taken ((view_sweep y id).trans hv) (h.sweep y id haction hjoined)
  · rw [hact]
    exact .taken hv hjoined

/-- Whatever is done next, the task comes on in an orderly way. -/
theorem phase_act (hx : x.Orderly) (h : Handling x shard task allowed C R Q)
    (hphase : Phase x shard task C R y) {action : Action} (haction : allowed action = true) :
    Phase x shard task C R (y.act action) := by
  cases hphase with
  | queued hv hjoined => exact phase_act_of_queued hx h hv hjoined haction
  | taken hv hjoined => exact phase_act_of_taken hx h hv hjoined haction
  | routed hR => exact .routed (h.act y action haction hR)

/-- What everything that may be done keeps holds after any history. -/
theorem run_of_act (hact : ∀ (y : Exchange) (action : Action), allowed action = true → R y →
      R (y.act action)) (hR : R y) {history : List Action}
    (hhistory : ∀ action ∈ history, allowed action = true) : R (y.run history) := by
  induction history generalizing y with
  | nil => exact hR
  | cons action history ih =>
      obtain ⟨haction, hhistory⟩ := List.forall_mem_cons.1 hhistory
      exact ih (hact y action haction hR) hhistory

/-- So it does after any history. -/
theorem phase_run (hx : x.Orderly) (h : Handling x shard task allowed C R Q)
    (hphase : Phase x shard task C R y) {history : List Action}
    (hhistory : ∀ action ∈ history, allowed action = true) :
    Phase x shard task C R (y.run history) :=
  run_of_act (R := x.Phase shard task C R)
    (fun _ _ haction hphase => phase_act hx h hphase haction) hphase hhistory

/-- However far a task has come, it can be brought to its end. -/
theorem phase_settles (hx : x.Orderly) (h : Handling x shard task allowed C R Q)
    (hphase : Phase x shard task C R y) :
    ∃ more : List Action, (∀ action ∈ more, allowed action = true) ∧ Q (y.run more) := by
  -- from the hand it is routed, and then it comes to its end
  have htaken : ∀ z : Exchange, z.view = x.view.setTraffic shard { inHand := [task] } →
      C z.assembler? → ∃ more : List Action, (∀ action ∈ more, allowed action = true) ∧
        Q (z.run more) := by
    intro z hz hjoined
    obtain ⟨more, hmore, hend⟩ := h.settles _ (routed_of_taken hx h hz hjoined)
    exact ⟨.finish shard 0 :: more, List.forall_mem_cons.2 ⟨h.finish, hmore⟩, hend⟩
  cases hphase with
  | queued hv hjoined =>
      obtain ⟨more, hmore, hend⟩ := htaken (y.take shard) (take_of_queued hv)
        (by rwa [assembler?_take])
      exact ⟨.take shard :: more, List.forall_mem_cons.2 ⟨h.take, hmore⟩, hend⟩
  | taken hv hjoined => exact htaken y hv hjoined
  | routed hR => exact h.settles y hR

/-- A task that has come to its end was routed. -/
theorem routed_of_phase (h : Handling x shard task allowed C R Q)
    (hphase : Phase x shard task C R y) (hend : Q y) : R y := by
  -- at the end nothing waits, so the task neither waits nor is in hand
  have hrest := h.atRest y hend shard
  cases hphase with
  | queued hv hjoined =>
      rw [hv, View.traffic_setTraffic] at hrest
      exact absurd (congrArg Traffic.work hrest) (List.cons_ne_nil task [])
  | taken hv hjoined =>
      rw [hv, View.traffic_setTraffic] at hrest
      exact absurd (congrArg Traffic.inHand hrest) (List.cons_ne_nil task [])
  | routed hR => exact hR

/-- **A message that comes in can be brought to its end whatever is done, and has come to `R`
whenever it is there.** -/
theorem Handling.outcome {e : Envelope} {raw : Bytes} (hx : x.Orderly)
    (h : Handling x shard (inbound e raw) allowed C R Q) (hjoined : C x.assembler?)
    (hroom : x.view.CanWork shard 1) (hdecode : Envelope.decode raw = .ok e) :
    ∃ y, x.enqueue shard raw none = (.ok (), y) ∧ x.enqueueEnvelope shard e raw = (.ok (), y) ∧
      ∀ history : List Action, (∀ action ∈ history, allowed action = true) →
        (∃ more : List Action, (∀ action ∈ more, allowed action = true) ∧
          Q ((y.run history).run more)) ∧
        (Q (y.run history) → R (y.run history)) := by
  obtain ⟨y, hsubmit, hview⟩ := view_submit hroom (inbound e raw)
  -- at first it waits alone
  have hqueued : Phase x shard (inbound e raw) C R y := by
    refine .queued ?_ ?_
    · rw [hview, hx.rest shard]
      rfl
    · have hsame := assembler?_submit x shard (inbound e raw)
      rw [hsubmit] at hsame
      rwa [hsame]
  refine ⟨y, ?_, hsubmit, fun history hhistory => ?_⟩
  · rw [enqueue, hdecode]
    exact hsubmit
  · have hphase := phase_run hx h hqueued hhistory
    exact ⟨phase_settles hx h hphase, routed_of_phase h hphase⟩

end Handling

end Exchange

end Switchboard
