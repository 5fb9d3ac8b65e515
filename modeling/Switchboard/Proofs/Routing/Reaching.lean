import Switchboard.Proofs.Routing.Nearing

/-!
# Reaching one person

A message for one person that is routed comes to the connection of that person, or is kept, or gets
lost, whatever room there is and however frames are published: `handling_reaching`.
-/

namespace Switchboard

namespace Exchange

/-- What a message for one person may have come to when it was routed: its frames are on their way
to the connection of that person, or it was kept, or it got lost. -/
inductive Reaching (x : Exchange) (e : Envelope) (frames : List Bytes) (y : Exchange) : Prop
  | nearing {owner : Nat} {session : Session} (held : x.holder? owner e.recipient = some session)
      (near : x.Nearing owner session e.recipient frames y)
  | kept (kept : OfflineStore) (away : ∀ id, x.holder? id e.recipient = none)
      (bare : y.bare = x.bare) (rest : y.AtRest) (mail : y.mail = x.mail)
      (offline : y.services.offline = x.services.offline ++ kept)
      (what : kept = [] ∨ ∃ next, e.Kept e.recipient x.now x.issued next kept)

section Reaching

variable {x y z : Exchange} {shard owner : Nat} {session : Session} {e : Envelope} {raw : Bytes}
  {frames : List Bytes}

/-- Nothing was sent yet, and at most identities were handed out. -/
def Untouched (x y : Exchange) : Prop := ∃ n, x.issued ≤ n ∧ y.view = { x.view with issued := n }

/-- Nothing waits at any shard yet. -/
theorem Untouched.idle (h : x.Untouched y) (hx : x.Orderly) (id : Nat) : y.traffic id = {} := by
  obtain ⟨n, -, hview⟩ := h
  exact (traffic_of_view hview id).trans (hx.rest id)

theorem Untouched.bare (h : x.Untouched y) : y.bare = x.bare := by
  obtain ⟨n, -, hview⟩ := h
  exact bare_of_view hview

theorem Untouched.mail (h : x.Untouched y) : y.mail = x.mail := by
  obtain ⟨n, -, hview⟩ := h
  exact mail_of_view hview

theorem Untouched.offline (h : x.Untouched y) : y.services.offline = x.services.offline := by
  obtain ⟨n, -, hview⟩ := h
  exact offline_of_view hview

/-- Nothing is left to read. -/
theorem Untouched.unread (h : x.Untouched y) (hcaught : x.CaughtUp) : y.unread = [] :=
  (unread_of_bare h.bare).trans (unread_of_caughtUp hcaught)

/-- As long as nothing was sent, nothing is on its way. -/
theorem nearing_nothing (hx : x.Orderly) (hcaught : x.CaughtUp) (h : x.Untouched y) (owner : Nat)
    (session : Session) (target : String) (frames : List Bytes) :
    x.Nearing owner session target frames y := by
  refine ⟨congrArg muted h.bare, fun id _ => h.idle hx id, ?_, ?_, ⟨[], ?_, ?_⟩,
    fun τ _ => congrFun h.mail τ, h.offline⟩
  · rw [h.idle hx]
    exact Traffic.isFor_nothing target
  · rw [h.unread hcaught]
    exact fun _ hmem => absurd hmem List.not_mem_nil
  · rw [h.mail]
    exact add_nil_of_mail _
  · rw [underwayTo, h.idle hx, h.unread hcaught]
    exact List.nil_subperm

/-- The frames were written. -/
theorem nearing_of_give (hx : x.Orderly) (hcaught : x.CaughtUp) (h : x.Untouched y)
    (hview : z.view = y.view.give session frames) (owner : Nat) (target : String) :
    x.Nearing owner session target frames z := by
  have hbare : z.bare = y.bare := bare_of_view hview
  have htraffic : ∀ id, z.traffic id = {} := fun id =>
    (traffic_of_view hview id).trans (h.idle hx id)
  have hunread : z.unread = [] := (unread_of_bare hbare).trans (h.unread hcaught)
  have hmail : ∀ τ, z.mail τ
      = if τ = session then (x.mail τ).map (·.accept frames) else x.mail τ := by
    intro τ
    rw [← h.mail]
    exact congrFun (mail_of_view hview) τ
  obtain ⟨more, hmore, hsub⟩ := exists_accept (x.mail session) frames
  refine ⟨congrArg muted (hbare.trans h.bare), fun id _ => htraffic id, ?_, ?_, ⟨more, ?_, ?_⟩,
    fun τ hτ => by rw [hmail, if_neg hτ], (offline_of_view hview).trans h.offline⟩
  · rw [htraffic]
    exact Traffic.isFor_nothing target
  · rw [hunread]
    exact fun _ hmem => absurd hmem List.not_mem_nil
  · rw [hmail, if_pos rfl]
    exact hmore
  · rw [underwayTo, htraffic, hunread]
    exact (List.append_nil more).symm ▸ hsub.subperm

/-- The frames were published. -/
theorem nearing_of_published (hx : x.Orderly) (hcaught : x.CaughtUp) (h : x.Untouched y)
    {target : String} (hpublish : y.publishAll (frames.map (.direct target)) = some z)
    (owner : Nat) (session : Session) : x.Nearing owner session target frames z := by
  obtain ⟨hmuted, hsub⟩ := unread_publishAll hpublish
  rw [h.unread hcaught, List.nil_append] at hsub
  have htraffic : ∀ id, z.traffic id = {} := by
    intro id
    -- publishing changes the broker only, and a muted exchange has none
    have hsame : z.muted.traffic id = y.muted.traffic id := by rw [hmuted]
    exact hsame.trans (h.idle hx id)
  have hmail : z.mail = x.mail := by
    have hsame : z.muted.mail = y.muted.mail := by rw [hmuted]
    exact hsame.trans h.mail
  have hoffline : z.services.offline = x.services.offline := by
    have hsame : z.muted.services.offline = y.muted.services.offline := by rw [hmuted]
    exact hsame.trans h.offline
  refine ⟨?_, fun id _ => htraffic id, ?_, fun event hevent => ?_, ⟨[], ?_, ?_⟩,
    fun τ _ => congrFun hmail τ, hoffline⟩
  · rw [hmuted]
    exact congrArg muted h.bare
  · rw [htraffic]
    exact Traffic.isFor_nothing target
  · obtain ⟨frame, -, rfl⟩ := List.mem_map.1 (hsub.subset hevent)
    exact ⟨frame, rfl⟩
  · rw [hmail]
    exact add_nil_of_mail _
  · -- the events are the frames, each once
    have hframes : (frames.map (BrokerEvent.direct target)).filterMap BrokerEvent.frame?
        = frames := by
      rw [List.filterMap_map]
      exact List.filterMap_some
    have hread := hsub.filterMap BrokerEvent.frame?
    rw [hframes] at hread
    rw [underwayTo, htraffic]
    exact hread.subperm

/-- Frames were handed over to the shard of their target. -/
theorem nearing_of_handed (hx : x.Orderly) (hcaught : x.CaughtUp) (h : x.Untouched y)
    {target : String} {k : Nat}
    (hview : z.view = y.view.setTraffic owner { y.view.traffic owner with
      forward := (y.view.traffic owner).forward ++ (frames.take k).map (Handover.mk target) })
    (session : Session) : x.Nearing owner session target frames z := by
  -- nothing waited at the shard of the target before
  have hidle : y.view.traffic owner = {} := h.idle hx owner
  rw [hidle] at hview
  have hnothing := nearing_nothing hx hcaught h owner session target frames
  have hbare : z.bare = y.bare := bare_of_view hview
  have htraffic : ∀ id, z.traffic id = if id = owner then
      { forward := (frames.take k).map (Handover.mk target) } else y.traffic id :=
    traffic_of_view hview
  have hmail : z.mail = y.mail := mail_of_view hview
  have hunread := unread_of_bare hbare
  refine ⟨congrArg muted (hbare.trans h.bare), fun id hid => ?_, ?_, ?_, ⟨[], ?_, ?_⟩,
    fun τ _ => congrFun (hmail.trans h.mail) τ, (offline_of_view hview).trans h.offline⟩
  · rw [htraffic, if_neg hid]
    exact h.idle hx id
  · rw [htraffic, if_pos rfl]
    refine ⟨fun _ hmem => absurd hmem List.not_mem_nil, fun handover hmem => ?_⟩
    obtain ⟨frame, -, rfl⟩ := List.mem_map.1 hmem
    rfl
  · rw [hunread]
    exact hnothing.unread
  · rw [hmail, h.mail]
    exact add_nil_of_mail _
  · rw [underwayTo, htraffic, if_pos rfl, hunread, h.unread hcaught, Traffic.frames]
    simp only [List.map_nil, List.nil_append, List.filterMap_nil, List.append_nil, List.map_map]
    refine (List.Perm.of_eq ?_).subperm.trans (List.take_sublist k frames).subperm
    exact List.map_id _

end Reaching

end Exchange

namespace Routing

section Reaching

variable {x : Exchange} {s : Errand} {shard owner : Nat} {session : Session} {e : Envelope}
  {target : String} {frames : List Bytes}

/-- For somebody on the shard, frames are published or written. -/
theorem leaves_deliverHere (hx : x.Orderly) (hcaught : x.CaughtUp) (hs : x.Untouched s.exchange)
    (hheld : x.holder? shard target = some session) :
    Leaves (deliverHere shard session target frames) s
      (x.Nearing shard session target frames) := by
  cases hpublish : s.exchange.publishAll (frames.map (.direct target)) with
  | some y =>
      have hpublished : Runs (published (frames.map (.direct target))) s true
          { s with exchange := y } := by
        refine Runs.get_bind ?_
        rw [hpublish]
        rfl
      refine hpublished.bind_leaves ?_
      exact Exchange.nearing_of_published hx hcaught hs hpublish shard session
  | none =>
      have hpublished : Runs (published (frames.map (.direct target))) s false s := by
        refine Runs.get_bind ?_
        rw [hpublish]
        rfl
      -- the connection is as the exchange had it, so it has its own session
      have hkey : s.exchange.view.KeepsAt session := by
        intro b hb
        have hb : s.exchange.mail session = some b := hb
        rw [hs.mail] at hb
        exact hx.owned.keepsAt hheld b hb
      refine hpublished.bind_leaves ((ends_write shard hkey frames).leaves fun s' hs' => ?_)
      exact Exchange.nearing_of_give hx hcaught hs hs'.view shard target

/-- For somebody who is away, a message is kept. -/
theorem leaves_store_reaching (hx : x.Orderly) (hs : x.Untouched s.exchange)
    (hwhole : e.isFragment = false) (haway : ∀ id, x.holder? id e.recipient = none) (shard : Nat)
    (frames : List Bytes) : Leaves (store shard e e.recipient) s (x.Reaching e frames) := by
  have hwell : s.exchange.services.outages = [] :=
    (Exchange.outages_of_bare hs.bare).trans hx.well
  obtain ⟨y, n, kept, hstore, -, hkept, hview⟩ := runs_store hwell shard hwhole e.recipient
  have hrun : (store shard e e.recipient).run.run s = (.ok (), { s with exchange := y }) := hstore
  rw [Leaves, hrun]
  obtain ⟨m, hm, hs'⟩ := id hs
  have hissued : s.exchange.issued = m := Exchange.issued_of_view hs'
  have hbare : y.bare = s.exchange.bare := Exchange.bare_of_view hview
  refine .kept kept haway (hbare.trans hs.bare) (fun id => ?_) ?_ ?_ (Or.inr ⟨n, ?_⟩)
  · exact (Exchange.traffic_of_view hview id).trans (hs.idle hx id)
  · exact (Exchange.mail_of_view hview).trans hs.mail
  · refine (Exchange.offline_of_view hview).trans ?_
    rw [hs.offline]
  · rw [Exchange.now_of_bare hs.bare, hissued] at hkept
    exact hkept.mono hm (Nat.le_refl n)

/-- **A message for one person is delivered to that person, or kept.** -/
theorem leaves_deliver_reaching (hx : x.Orderly) (hcaught : x.CaughtUp)
    (hs : x.Untouched s.exchange) (hwhole : e.isFragment = false) (shard : Nat)
    (frames : List Bytes) :
    Leaves (deliver shard e e.recipient frames) s (x.Reaching e frames) := by
  have hwell : s.exchange.services.outages = [] :=
    (Exchange.outages_of_bare hs.bare).trans hx.well
  have hholder : ∀ id, s.exchange.holder? id e.recipient = x.holder? id e.recipient :=
    fun id => Exchange.holder?_of_bare hs.bare id e.recipient
  refine (runs_isOnline hwell e.recipient).bind_leaves ?_
  rw [Exchange.isOnline_of_bare hs.bare e.recipient]
  by_cases hconnected : ∃ owner session, x.holder? owner e.recipient = some session
  · -- somebody who is connected is online, and the index has the shard
    obtain ⟨owner, session, hheld⟩ := hconnected
    rw [hx.isOnline_of_held hheld]
    refine Leaves.exchange_bind ?_
    by_cases howner : owner = shard
    · subst howner
      rw [Exchange.whereabouts_of_holder? ((hholder owner).trans hheld)]
      exact .nearing hheld (leaves_deliverHere hx hcaught hs hheld)
    · have hnone := (hholder shard).trans (hx.holder?_of_ne hheld (Ne.symm howner))
      have hindex : s.exchange.pool.index.get? e.recipient = some owner := by
        rw [Exchange.index_of_bare hs.bare]
        exact hx.index_of_held hheld
      rw [Exchange.whereabouts_of_index hnone
        ((Exchange.isReachable_of_bare hs.bare).trans hx.reachable) hindex howner]
      obtain ⟨k, -, hview, -⟩ := handed_forward owner e.recipient frames s
      exact .nearing hheld (Exchange.nearing_of_handed hx hcaught hs hview session)
  · -- somebody who is not is offline, since registries and presence agree
    have haway := Exchange.away_of_not_connected hconnected
    rw [hx.isOnline_of_away haway]
    exact leaves_store_reaching hx hs hwhole haway shard frames

end Reaching

end Routing

namespace Exchange

/-- A message for one person who is not the assistant. -/
structure Personal (x : Exchange) (e : Envelope) : Prop where
  recipient : e.recipient ≠ ""
  kind : e.deliveryKind = .direct
  person : x.services.isAssistant e.recipient = false
  whole : e.isFragment = false

section Reaching

variable {x y z : Exchange} {shard : Nat} {e : Envelope} {raw : Bytes} {frames : List Bytes}

/-- It is not for a group. -/
theorem Personal.not_nobody (he : x.Personal e) : ¬ x.IsForNobody e := by
  rintro ⟨hkind, -⟩
  exact DeliveryKind.noConfusion (he.kind.symm.trans hkind)

/-- What a message comes to that cannot be sent. -/
theorem reaching_nothing (hx : x.Orderly) (hcaught : x.CaughtUp) (h : x.Untouched y)
    (frames : List Bytes) : x.Reaching e frames y := by
  by_cases hconnected : ∃ owner session, x.holder? owner e.recipient = some session
  · obtain ⟨owner, session, hheld⟩ := hconnected
    exact .nearing hheld (nearing_nothing hx hcaught h owner session e.recipient frames)
  · refine .kept [] (away_of_not_connected hconnected) h.bare (h.idle hx) h.mail ?_
      (Or.inl rfl)
    rw [h.offline, List.append_nil]

/-- What a message has come to does not depend on what is counted. -/
theorem Reaching.congr (h : x.Reaching e frames y) (hview : z.view = y.view) :
    x.Reaching e frames z := by
  have htraffic : ∀ id, z.traffic id = y.traffic id := traffic_of_view hview
  have hbare : z.bare = y.bare := bare_of_view hview
  have hmail : z.mail = y.mail := mail_of_view hview
  cases h with
  | nearing hheld hnear =>
      refine .nearing hheld (hnear.step (congrArg muted hbare) (fun id _ => htraffic id) ?_ ?_
        (offline_of_view hview) (fun τ _ => congrFun hmail τ) ⟨[], ?_, ?_⟩)
      · rw [htraffic]
        exact hnear.bound
      · rw [unread_of_bare hbare]
        exact hnear.unread
      · rw [hmail]
        exact add_nil_of_mail _
      · rw [List.nil_append, underwayTo, underwayTo, htraffic, unread_of_bare hbare]
  | kept kept haway hkept hrest hsame hoffline hwhat =>
      exact .kept kept haway (hbare.trans hkept) (fun id => (htraffic id).trans (hrest id))
        (hmail.trans hsame) ((offline_of_view hview).trans hoffline) hwhat

/-- Nor does what it comes to depend on what was counted before. -/
theorem Reaching.of_view (hview : y.view = x.view) (h : y.Reaching e frames z) :
    x.Reaching e frames z := by
  have hbare : y.bare = x.bare := bare_of_view hview
  have hmail : y.mail = x.mail := mail_of_view hview
  have hoffline : y.services.offline = x.services.offline := offline_of_view hview
  have hissued : y.issued = x.issued := issued_of_view hview
  -- who is connected is part of what both exchanges share
  have hheld := holder?_of_bare hbare
  cases h with
  | nearing hheld' hnear =>
      refine .nearing ((hheld _ _).symm.trans hheld') ?_
      have hhere := hnear.mail
      rw [hmail] at hhere
      exact ⟨hnear.bare.trans (congrArg muted hbare), hnear.idle, hnear.bound, hnear.unread, hhere,
        fun τ hτ => (hnear.others τ hτ).trans (congrFun hmail τ), hnear.offline.trans hoffline⟩
  | kept kept haway hkept hrest hsame hadded hwhat =>
      rw [hoffline] at hadded
      rw [hissued, now_of_bare hbare] at hwhat
      exact .kept kept (fun id => (hheld id _).symm.trans (haway id)) (hkept.trans hbare) hrest
        (hsame.trans hmail) hadded hwhat

/-- **A message for one person that is routed is on its way to that person, or kept.** -/
theorem reaching_routeTask (hx : x.Orderly) (hcaught : x.CaughtUp) (he : x.Personal e)
    (hshard : (x.shard? shard).isSome) (raw : Bytes) :
    x.Reaching e (x.plan e raw).frames (x.routeTask shard (inbound e raw)) := by
  have hmade := run_outboundFrames_framed hx hshard e raw
  have huntouched : x.Untouched { x with issued := e.drawn x.config.fragment.limits x.issued } :=
    ⟨_, e.le_drawn _ _, rfl⟩
  refine routeTask_of_leaves ?_ fun y hy => hy.congr (view_mapCounters ..)
  rw [inbound, route_inbound he.recipient he.kind shard raw]
  refine Routing.Leaves.exchange_bind ?_
  rw [if_neg (by rw [he.person]; exact Bool.false_ne_true)]
  cases hframed : x.framed e raw with
  | error fault =>
      rw [hframed] at hmade
      -- a message that would need too many fragments is not sent to anybody
      refine Routing.Leaves.bind (fun a s' h => ?_) fun stop s' h => ?_
      · rw [hmade] at h
        cases h
      · rw [hmade] at h
        cases h
        exact reaching_nothing hx hcaught huntouched _
  | ok frames =>
      rw [hframed] at hmade
      rw [plan_of_framed he.not_nobody hframed]
      refine Routing.Runs.bind_leaves hmade ?_
      exact Routing.leaves_deliver_reaching hx hcaught huntouched he.whole shard frames

/-- Where nothing is on its way, nothing is done. -/
theorem act_of_atRest (hx : x.Orderly) (hcaught : x.CaughtUp) (hbare : y.bare = x.bare)
    (hrest : y.AtRest) {action : Action} (haction : action.serves = true) : y.act action = y := by
  cases action, haction using Action.serves_cases with
  | take id => exact take_of_idle (hrest id)
  | finish id slot => exact finish_of_idle (hrest id) slot
  | relay id => exact relay_of_idle (hrest id)
  | answer => exact answer_of_nil ((prompts_of_bare hbare).trans hx.noPrompt)
  | consume => exact consume_of_caughtUp (caughtUp_of_bare hbare hcaught)

/-- Whatever is done next, nobody else gets anything of the message. -/
theorem reaching_act (hx : x.Orderly) (hcaught : x.CaughtUp) (h : x.Reaching e frames y)
    {action : Action} (haction : action.serves = true) : x.Reaching e frames (y.act action) := by
  cases h with
  | nearing hheld hnear => exact .nearing hheld (nearing_act hx hheld hnear haction)
  | kept kept haway hbare hrest hmail hoffline hwhat =>
      have hact := act_of_atRest hx hcaught hbare hrest haction
      rw [hact]
      exact .kept kept haway hbare hrest hmail hoffline hwhat

/-- The message can be brought to its end. -/
theorem reaching_settles (hx : x.Orderly) (hcaught : x.CaughtUp) (h : x.Reaching e frames y) :
    ∃ more : List Action, (∀ action ∈ more, action.serves = true) ∧ (y.run more).Settled := by
  cases h with
  | nearing hheld hnear => exact nearing_settles hx hheld hnear
  | kept kept haway hbare hrest hmail hoffline hwhat =>
      exact ⟨[], fun _ hmem => absurd hmem List.not_mem_nil, hrest,
        consuming_of_caughtUp (caughtUp_of_bare hbare hcaught)⟩

/-- **A message for one person comes to that person, or is kept, or gets lost**, whatever is done in
whatever order. -/
theorem handling_reaching (hx : x.Orderly) (hcaught : x.CaughtUp) (he : x.Personal e)
    (hshard : (x.shard? shard).isSome) (raw : Bytes) :
    Handling x shard (inbound e raw) Action.serves (fun _ => True)
      (x.Reaching e (x.plan e raw).frames) Settled where
  caughtUp := hcaught
  handles _ := Action.handles_of_serves
  take := rfl
  finish := rfl
  sweep _ _ h := absurd h Bool.false_ne_true
  route y hview _ := by
    have hbare : y.bare = x.bare := bare_of_view hview
    -- whether a message is for one person does not depend on what is on its way
    have he' : y.Personal e := by
      have hassistant : y.bare.services.isAssistant e.recipient
          = x.bare.services.isAssistant e.recipient := by rw [hbare]
      exact ⟨he.recipient, he.kind, hassistant.trans he.person, he.whole⟩
    have hrouted := reaching_routeTask (orderly_of_view hview hx) (caughtUp_of_bare hbare hcaught)
      he' (isSome_shard?_of_bare hbare hshard) raw
    rw [plan_of_view hview] at hrouted
    exact hrouted.of_view hview
  act _ _ haction h := reaching_act hx hcaught h haction
  settles _ h := reaching_settles hx hcaught h
  atRest _ h := h.1

end Reaching

end Exchange

end Switchboard
