import Switchboard.Proofs.Routing.Handling

/-!
# Frames that are published

With a broker, the frames for connections here are published, and the consumer writes them. As long
as the consumer does not fall behind, the broker has for it all events that were published and not
read, in their order: `Broker.Awaits`. Routing a message publishes its frames and keeps the message
for those who are away (`dispatched_of_published`), and the consumer sends each frame to everybody it
is for (`heard_consume`).
-/

namespace Switchboard

namespace Broker

/-- What a subscriber has still to read, and nothing of it was written over. -/
def Awaits (b : Broker) (subscriber : Nat) (events : List BrokerEvent) : Prop :=
  ∃ next, b.subscribers.get? subscriber = some next ∧ next ≤ b.sent.length ∧
    b.sent.drop next = events ∧ events.length ≤ b.capacity

variable {b : Broker} {subscriber : Nat} {event : BrokerEvent} {events : List BrokerEvent}

theorem Awaits.size_ne_zero (h : b.Awaits subscriber events) : b.subscribers.size ≠ 0 := by
  obtain ⟨next, hnext, -⟩ := h
  intro hsize
  rw [Table.get?_of_size_eq_zero hsize] at hnext
  exact Option.some_ne_none next hnext.symm

/-- What is published comes last. -/
theorem publish_of_awaits (h : b.Awaits subscriber events) (hroom : events.length < b.capacity)
    (event : BrokerEvent) : ∃ b', b.publish event = some b' ∧ b'.capacity = b.capacity ∧
      b'.Awaits subscriber (events ++ [event]) := by
  obtain ⟨next, hnext, hle, hdrop, -⟩ := id h
  refine ⟨_, if_neg h.size_ne_zero, rfl, next, hnext, ?_, ?_, ?_⟩
  · rw [List.length_append]
    omega
  · rw [List.drop_append_of_le_length hle, hdrop]
  · rw [List.length_append, List.length_singleton]
    exact hroom

/-- The subscriber reads the oldest of the events. -/
theorem read_of_awaits_cons (h : b.Awaits subscriber (event :: events)) :
    ∃ b', b.read subscriber = (.event event, b') ∧ b'.capacity = b.capacity ∧
      b'.Awaits subscriber events := by
  obtain ⟨next, hnext, hle, hdrop, hcapacity⟩ := h
  have hlength := congrArg List.length hdrop
  rw [List.length_drop, List.length_cons] at hlength
  rw [List.length_cons] at hcapacity
  have hlost : ¬ next < b.sent.length - b.capacity := by omega
  have hevent : b.sent[next]? = some event := by
    have hhead : (b.sent.drop next)[0]? = some event := by
      rw [hdrop]
      rfl
    rwa [List.getElem?_drop, Nat.add_zero] at hhead
  refine ⟨{ b with subscribers := b.subscribers.insert subscriber (next + 1) }, ?_, rfl, next + 1,
    (Table.get?_insert ..).trans (if_pos rfl), ?_, ?_, ?_⟩
  · rw [read, hnext]
    dsimp only
    rw [if_neg hlost, hevent]
  · show next + 1 ≤ b.sent.length
    omega
  · show b.sent.drop (next + 1) = events
    rw [← List.tail_drop, hdrop, List.tail_cons]
  · show events.length ≤ b.capacity
    omega

theorem backlog_of_awaits (h : b.Awaits subscriber events) :
    b.backlog subscriber = events.length := by
  obtain ⟨next, hnext, hle, rfl, hcapacity⟩ := h
  rw [List.length_drop] at hcapacity
  have hlost : ¬ next < b.sent.length - b.capacity := by omega
  rw [backlog, hnext]
  dsimp only
  rw [if_neg hlost, List.length_drop]

end Broker

/-- The event in which a frame of a message is published. -/
def Envelope.event (e : Envelope) (frame : Bytes) : BrokerEvent :=
  match e.deliveryKind with
  | .direct => .direct e.recipient frame
  | .group => .group e.recipient e.sender frame

namespace Envelope

theorem map_event_of_direct (e : Envelope) (hkind : e.deliveryKind = .direct)
    (frames : List Bytes) : frames.map e.event = frames.map (BrokerEvent.direct e.recipient) := by
  refine List.map_congr_left fun frame _ => ?_
  rw [event, hkind]

theorem map_event_of_group (e : Envelope) (hkind : e.deliveryKind = .group)
    (frames : List Bytes) :
    frames.map e.event = frames.map (BrokerEvent.group e.recipient e.sender) := by
  refine List.map_congr_left fun frame _ => ?_
  rw [event, hkind]

end Envelope

namespace Exchange

/-- The exchange with another broker. -/
def withBroker (x : Exchange) (b : Broker) : Exchange :=
  { x with services.publishing := .broker b }

variable {x y : Exchange} {b : Broker} {subscriber : Nat}

/-- No broker makes a pool any less orderly. -/
theorem Orderly.withBroker (hx : x.Orderly) (b : Broker) : (x.withBroker b).Orderly :=
  ⟨hx.well, hx.reachable, hx.limits, hx.rest, hx.noPrompt, hx.agrees, hx.owned, hx.members⟩

theorem view_withBroker (x : Exchange) (b : Broker) :
    (x.withBroker b).view = { x.view with bare := x.view.bare.withBroker b } := rfl

theorem mailed_withBroker {mail : Session → Option Mailbox} {sent : Nat → String → List Bytes} :
    (x.withBroker b).Mailed mail sent ↔ x.Mailed mail sent :=
  ⟨fun h => ⟨h.held, h.others⟩, fun h => ⟨h.held, h.others⟩⟩

theorem caughtUp_of_awaits (hconsumer : x.pool.consumer = some subscriber)
    (hpublishing : x.services.publishing = .broker b) (hb : b.Awaits subscriber []) :
    x.CaughtUp := by
  intro subscriber' broker next hsubscriber hbroker hnext
  obtain rfl := Option.some.inj (hconsumer.symm.trans hsubscriber)
  obtain rfl := Publishing.broker.inj (hpublishing.symm.trans hbroker)
  obtain ⟨next', hnext', hle, hdrop, -⟩ := hb
  obtain rfl := Option.some.inj (hnext.symm.trans hnext')
  exact Nat.le_antisymm hle (List.drop_eq_nil_iff.1 hdrop)

/-- Where nothing that is published is taken, nobody reads anything. -/
theorem caughtUp_of_mute (h : x.Mute) : x.CaughtUp := by
  intro subscriber broker next _ hbroker hnext
  by_cases hnobody : broker.subscribers.size = 0
  · rw [Table.get?_of_size_eq_zero hnobody] at hnext
    exact absurd hnext.symm (Option.some_ne_none next)
  · -- any event would be taken if somebody subscribed
    have hnone := h (.direct "" [])
    rw [publish, hbroker] at hnone
    dsimp only at hnone
    rw [Broker.publish, if_neg hnobody] at hnone
    exact absurd hnone (Option.some_ne_none _)

theorem mute_of_nobody (hpublishing : x.services.publishing = .broker b)
    (hb : b.subscribers.size = 0) : x.Mute := by
  intro event
  rw [publish, hpublishing]
  dsimp only
  rw [Broker.publish, if_pos hb]

/-- Nobody reads from a broker that nobody listens to. -/
theorem caughtUp_of_nobody (hpublishing : x.services.publishing = .broker b)
    (hb : b.subscribers.size = 0) : x.CaughtUp :=
  caughtUp_of_mute (mute_of_nobody hpublishing hb)

/-- All of some events are published if there is room for them. -/
theorem publishAll_of_awaits (hpublishing : x.services.publishing = .broker b)
    {waiting : List BrokerEvent} (hb : b.Awaits subscriber waiting) (events : List BrokerEvent)
    (hroom : waiting.length + events.length ≤ b.capacity) :
    ∃ b', x.publishAll events = some (x.withBroker b') ∧ b'.capacity = b.capacity ∧
      b'.Awaits subscriber (waiting ++ events) := by
  -- on the events, each of which leaves room for the rest
  induction events generalizing x b waiting with
  | nil =>
      refine ⟨b, ?_, rfl, by rwa [List.append_nil]⟩
      rw [publishAll, withBroker, ← hpublishing]
  | cons event events ih =>
      rw [List.length_cons] at hroom
      obtain ⟨b₁, hpublish, hcapacity, hb₁⟩ := Broker.publish_of_awaits hb (by omega) event
      obtain ⟨b₂, hall, hcapacity', hb₂⟩ := ih (x := x.withBroker b₁) rfl hb₁
        (by rw [List.length_append, List.length_singleton, hcapacity]; omega)
      refine ⟨b₂, ?_, hcapacity'.trans hcapacity, ?_⟩
      · rw [publishAll, publish, hpublishing]
        dsimp only
        rw [hpublish]
        exact hall
      · rwa [List.append_assoc] at hb₂

end Exchange

/-! ## Routing -/

namespace Routing

variable {s : Errand} {b : Broker} {subscriber : Nat}

/-- Where the consumer listens, it is said that the events were published. -/
theorem runs_published_of_awaits (hpublishing : s.exchange.services.publishing = .broker b)
    {waiting : List BrokerEvent} (hb : b.Awaits subscriber waiting) (events : List BrokerEvent)
    (hroom : waiting.length + events.length ≤ b.capacity) :
    ∃ b', b'.Awaits subscriber (waiting ++ events) ∧ b'.capacity = b.capacity ∧
      Runs (published events) s true { s with exchange := s.exchange.withBroker b' } := by
  obtain ⟨b', hall, hcapacity, hb'⟩ := Exchange.publishAll_of_awaits hpublishing hb events hroom
  refine ⟨b', hb', hcapacity, Runs.get_bind ?_⟩
  rw [hall]
  rfl

theorem ends_deliver_of_published {s' : Errand} {shard : Nat} {e : Envelope} {target : String}
    {frames : List Bytes} {session : Session} {P : Errand → Prop}
    (hwell : s.exchange.services.outages = [])
    (honline : s.exchange.services.presence.isOnline target = true)
    (hheld : s.exchange.holder? shard target = some session)
    (hpublished : Runs (published (frames.map (BrokerEvent.direct target))) s true s')
    (hs' : P s') : Ends (deliver shard e target frames) s P := by
  refine Runs.bind_ends (runs_isOnline hwell target) ?_
  rw [honline]
  refine Ends.exchange_bind ?_
  rw [Exchange.whereabouts_of_holder? hheld]
  exact Runs.bind_ends hpublished (.of_runs (a := ()) rfl hs')

section Settle

variable {x : Exchange} {before : Afoot} {shard : Nat} {e : Envelope} {k : Stock}
  {done : List String} {target : String}

/-- For somebody who is connected there is nothing to do, since the frames are published. -/
theorem dispatched_of_connected (hx : x.Orderly) (h : x.Dispatched before shard e [] k done s)
    {id : Nat} {session : Session} (hheld : x.holder? id target = some session) :
    x.Dispatched before shard e [] k (done ++ [target]) s := by
  by_cases hid : id = shard
  · subst hid
    exact Exchange.dispatched_of_here hx h hheld (gave_nil s session)
  · -- no frames are handed on, so the other shard is left as it was
    refine Exchange.dispatched_of_elsewhere hx h hheld hid ?_ rfl
    rw [List.map_nil, List.append_nil]
    exact (View.setTraffic_self ..).symm

/-- After a message was published, it is kept for those who are away. -/
theorem ends_settle (hx : x.Orderly) (h : x.Dispatched before shard e [] k done s)
    (target : String) :
    Ends (settle shard e target) s (x.Dispatched before shard e [] k (done ++ [target])) := by
  refine Runs.bind_ends (runs_isOnline ((Exchange.outages_of_bare h.bare).trans hx.well) target) ?_
  refine Ends.exchange_bind ?_
  rw [Exchange.isOnline_of_bare h.bare]
  by_cases hconnected : ∃ id session, x.holder? id target = some session
  · obtain ⟨id, session, hheld⟩ := hconnected
    have hthere : s.exchange.isConnected shard target = true := by
      rw [Exchange.isConnected, if_pos ((Exchange.isReachable_of_bare h.bare).trans hx.reachable),
        Exchange.index_of_bare h.bare, Table.contains, hx.index_of_held hheld]
      rfl
    rw [hx.isOnline_of_held hheld, hthere]
    exact .of_runs (a := ()) rfl (dispatched_of_connected hx h hheld)
  · have haway := Exchange.away_of_not_connected hconnected
    rw [hx.isOnline_of_away haway]
    exact ends_store_of_away hx h haway

theorem runs_settle (hx : x.Orderly) (h : x.Dispatched before shard e [] k [] s)
    (targets : List String) :
    ∃ s', Runs (forEach (settle shard e) targets) s () s' ∧
      x.Dispatched before shard e [] k targets s' := by
  refine runs_forEach (I := fun done => x.Dispatched before shard e [] k done) h ?_
  intro done target rest s _ hdone
  exact ends_settle hx hdone target

end Settle

end Routing

namespace Exchange

section Published

variable {x y : Exchange} {before : Afoot} {shard : Nat} {e : Envelope} {raw : Bytes} {k : Stock}
  {done : List String} {s : Errand} {b : Broker} {subscriber : Nat}

/-- Only what a message was planned for has frames. -/
theorem framed_of_plan (h : (x.plan e raw).frames ≠ []) :
    ¬ x.IsForNobody e ∧ ∃ frames, x.framed e raw = .ok frames := by
  have hnobody : ¬ x.IsForNobody e := by
    intro hnobody
    rw [plan_of_nobody hnobody] at h
    exact h rfl
  refine ⟨hnobody, ?_⟩
  cases hframed : x.framed e raw with
  | ok frames => exact ⟨frames, rfl⟩
  | error fault =>
      rw [plan_of_error hnobody hframed] at h
      exact absurd rfl h

/-- What is published of a message, if anything is, is all of it. -/
theorem toPublish_of_published (h : ¬ x.IsUnpublished shard e raw) :
    ¬ (e.deliveryKind = .direct ∧ x.holder? shard e.recipient = none) ∧
      x.toPublish shard e raw = (x.plan e raw).frames ∧ (x.plan e raw).frames ≠ [] := by
  obtain ⟨-, hsome⟩ := not_or.1 h
  have hhere : ¬ (e.deliveryKind = .direct ∧ x.holder? shard e.recipient = none) :=
    fun hnone => hsome (if_pos hnone)
  have hall : x.toPublish shard e raw = (x.plan e raw).frames := if_neg hhere
  exact ⟨hhere, hall, hall ▸ hsome⟩

theorem targets_of_plan (h : (x.plan e raw).frames ≠ []) :
    (x.plan e raw).targets = x.targets e := by
  obtain ⟨hnobody, frames, hframed⟩ := framed_of_plan h
  rw [plan_of_framed hnobody hframed]

/-- **Where the consumer listens, routing a message publishes its frames and keeps it for those who
are away.** -/
theorem dispatched_of_published (hx : x.Orderly) (he : x.Routable e raw)
    (hshard : (x.shard? shard).isSome) (hpublishing : x.services.publishing = .broker b)
    (hb : b.Awaits subscriber []) (hcapacity : (x.toPublish shard e raw).length ≤ b.capacity)
    (hpublished : ¬ x.IsUnpublished shard e raw) :
    ∃ b' s, b'.Awaits subscriber ((x.plan e raw).frames.map e.event) ∧
      x.routeTask shard (inbound e raw) = s.exchange ∧
      (x.withBroker b').Dispatched x.calm shard e []
        { x.stock shard with issued := (x.plan e raw).issued } (x.plan e raw).targets s := by
  obtain ⟨hhere, hall, hsome⟩ := toPublish_of_published hpublished
  obtain ⟨hnobody, frames, hframed⟩ := framed_of_plan hsome
  obtain ⟨n, hn⟩ : ∃ n, n = e.drawn x.config.fragment.limits x.issued := ⟨_, rfl⟩
  have hmade := run_outboundFrames_framed hx hshard e raw
  have hplan := plan_of_framed hnobody hframed
  rw [hframed, ← hn] at hmade
  rw [← hn] at hplan
  rw [hall, hplan] at hcapacity
  rw [hplan]
  obtain ⟨b', hb', -, hruns⟩ := Routing.runs_published_of_awaits
    (s := { exchange := { x with issued := n }, copy := .unresolved }) hpublishing hb
    (frames.map e.event) (by rwa [List.length_map, List.length_nil, Nat.zero_add])
  have hx' := hx.withBroker b'
  have hnothing : (x.withBroker b').Dispatched x.calm shard e [] { x.stock shard with issued := n } []
      { exchange := { x.withBroker b' with issued := n }, copy := .unresolved } :=
    dispatched_calm (x := x.withBroker b') hx.rest shard e [] n
  have hends : Routing.Ends (Routing.route shard (inbound e raw))
      { exchange := x, copy := .unresolved } ((x.withBroker b').Dispatched x.calm shard e []
        { x.stock shard with issued := n } (x.targets e)) := by
    -- a message for one person is only settled for that one, for a group for every member
    cases hkind : e.deliveryKind with
    | direct =>
        obtain ⟨session, hheld⟩ : ∃ session, x.holder? shard e.recipient = some session :=
          Option.ne_none_iff_exists'.1 fun hnone => hhere ⟨hkind, hnone⟩
        have htargets : x.targets e = [] ++ [e.recipient] := by
          rw [targets, hkind]
          rfl
        rw [e.map_event_of_direct hkind] at hruns
        rw [htargets]
        have hdirect := route_direct he.recipient hkind (he.person hkind) shard raw
        refine Routing.Ends.congr ?_ (hdirect.trans (Routing.Runs.run_bind hmade _))
        exact Routing.ends_deliver_of_published hx.well (hx.isOnline_of_held hheld) hheld hruns
          (Routing.dispatched_of_connected hx' hnothing hheld)
    | group =>
        have hmembers : x.services.groups.membersOf e.recipient ≠ [] :=
          fun hnil => hnobody ⟨hkind, hnil⟩
        rw [e.map_event_of_group hkind] at hruns
        have hgroup := route_group hx.well he.recipient hkind hmembers shard raw
        refine Routing.Ends.congr ?_ (hgroup.trans (Routing.Runs.run_bind hmade _))
        refine Routing.Runs.bind_ends hruns ?_
        obtain ⟨s, hrun, hs⟩ := Routing.runs_settle hx' hnothing (x.targets e)
        exact .of_runs hrun hs
  obtain ⟨s, hs, hroute⟩ := routeTask_of_ends hends
  exact ⟨b', s, hb', hroute, hs⟩

/-- A dispatch does not depend on what is joined at other shards, or counted. -/
theorem Dispatched.of_view {frames : List Bytes} (h : y.view = x.view)
    (hs : y.Dispatched before shard e frames k done s) :
    x.Dispatched before shard e frames k done s := by
  have hbare : y.bare = x.bare := bare_of_view h
  have hlanes : y.lanesFrom shard frames done = x.lanesFrom shard frames done := by
    funext id
    rw [lanesFrom, lanesFrom, due_of_view h]
  refine ⟨hs.bare.trans hbare, fun id => hlanes ▸ hs.traffic id, ?_, ?_, hs.others⟩
  · rw [← hlanes]
    exact hs.mail.of_view h
  · rw [← absent_of_view h, ← now_of_bare hbare]
    exact hs.stock

/-- What routing a message publishes, whatever was counted before. -/
theorem dispatched_routeTask_of_view (h : y.view = x.view) (hjoined : y.assembler? = x.assembler?)
    (hx : x.Orderly) (he : x.Routable e raw) (hroom : x.view.CanWork shard 1)
    (hpublishing : x.services.publishing = .broker b) (hb : b.Awaits subscriber [])
    (hcapacity : (x.toPublish shard e raw).length ≤ b.capacity)
    (hpublished : ¬ x.IsUnpublished shard e raw) :
    ∃ b' s, b'.Awaits subscriber ((x.plan e raw).frames.map e.event) ∧
      y.routeTask shard (inbound e raw) = s.exchange ∧
      (x.withBroker b').Dispatched x.calm shard e []
        { x.stock shard with issued := (x.plan e raw).issued } (x.plan e raw).targets s := by
  have hbare : y.bare = x.bare := bare_of_view h
  have hshard : (y.shard? shard).isSome := by
    obtain ⟨t, ht, -⟩ := hroom
    obtain ⟨s, hs, -⟩ := exists_shard? ht
    exact isSome_shard?_of_bare hbare (by rw [hs]; rfl)
  have hpublished' : ¬ y.IsUnpublished shard e raw :=
    fun hunpublished => hpublished (hunpublished.of_view h.symm)
  obtain ⟨b', s, hb', hroute, hs⟩ := dispatched_of_published (orderly_of_view h hx)
    (routable_of_view h he) hshard ((publishing_of_bare hbare).trans hpublishing) hb
    (by rwa [toPublish_of_view h]) hpublished'
  have hview : (y.withBroker b').view = (x.withBroker b').view := by
    rw [view_withBroker, view_withBroker, h]
  have hoffline : y.services.offline = x.services.offline := offline_of_view h
  rw [plan_of_view h, stock, Errand.stock, hoffline, hjoined, calm, hjoined] at hs
  rw [plan_of_view h] at hb'
  exact ⟨b', s, hb', hroute, hs.of_view hview⟩

end Published

/-! ## The consumer -/

section Consumer

variable {x y : Exchange} {shard : Nat} {identity : String} {session : Session}

/-- A frame for somebody who is connected is sent to the connection, and nothing else is done. -/
theorem deliverFrame_of_held (hindex : x.pool.index.get? identity = some shard)
    (hheld : x.holder? shard identity = some session) (hkey : x.view.KeepsAt session)
    (frame : Bytes) : (x.deliverFrame identity frame).2.view = x.view.give session [frame] ∧
      (x.deliverFrame identity frame).2.assembler? = x.assembler? := by
  rw [deliverFrame, hindex]
  dsimp only
  rw [deliverFrameAt, hheld]
  dsimp only
  rcases sendTo_cases hkey frame with ⟨y, hsend, hview, hassembler⟩ | ⟨fault, hsend, hfull⟩
  · rw [hsend]
    exact ⟨(view_mapCounters ..).trans hview, (assembler?_mapCounters ..).trans hassembler⟩
  · rw [hsend]
    exact ⟨(view_mapCounters ..).trans (View.give_of_full hfull _).symm,
      assembler?_mapCounters ..⟩

theorem deliverFrame_of_away (h : x.pool.index.get? identity = none) (frame : Bytes) :
    (x.deliverFrame identity frame).2 = x := by
  rw [deliverFrame, h]

/-- **A published frame is sent to everybody it is for, once.** -/
theorem mailed_deliverPublished (hx : x.Orderly) (frame : Bytes) {targets : List String}
    (hnodup : targets.Nodup) (hbare : y.bare = x.bare) {sent : Nat → String → List Bytes}
    (hmail : x.Mailed y.mail sent) :
    ∃ mail, (y.deliverPublished frame targets).view = { y.view with mail } ∧
      (x.Mailed mail fun shard identity =>
        sent shard identity ++ if identity ∈ targets then [frame] else []) ∧
      (y.deliverPublished frame targets).assembler? = y.assembler? := by
  -- on those the frame is for, no two of whom are the same
  induction targets generalizing y sent with
  | nil =>
      refine ⟨y.mail, rfl, hmail.congr fun shard identity _ => ?_, rfl⟩
      rw [if_neg List.not_mem_nil, List.append_nil]
  | cons target targets ih =>
      obtain ⟨hnot, hnodup⟩ := List.nodup_cons.1 hnodup
      rw [deliverPublished]
      by_cases hconnected : ∃ id session, x.holder? id target = some session
      · obtain ⟨id, session, hheld⟩ := hconnected
        have hindex : y.pool.index.get? target = some id := by
          rw [index_of_bare hbare]
          exact hx.index_of_held hheld
        obtain ⟨hview, hassembler⟩ := deliverFrame_of_held hindex
          ((holder?_of_bare hbare id target).trans hheld)
          (hmail.keepsAt (v := y.view) hx.owned hheld) frame
        have hmail' : x.Mailed (y.deliverFrame target frame).2.mail fun shard identity =>
            sent shard identity ++ if identity = target then [frame] else [] := by
          rw [mail_of_view hview]
          refine hmail.give (v := y.view) hx.owned hx.agrees hheld ?_ fun _ _ _ hne => ?_
          · rw [if_pos rfl]
          · rw [if_neg hne, List.append_nil]
        obtain ⟨mail, hall, hsent, hassembler'⟩ := ih hnodup
          ((bare_of_view hview).trans hbare) hmail'
        refine ⟨mail, ?_, hsent.congr fun shard identity _ => ?_, hassembler'.trans hassembler⟩
        · rw [hall, hview]
          rfl
        · rw [List.append_assoc]
          refine congrArg _ ?_
          -- the target was sent the frame just now and is not in what is left
          by_cases htarget : identity = target
          · rw [if_pos (List.mem_cons.2 (.inl htarget)), if_pos htarget, if_neg (htarget ▸ hnot),
              List.append_nil]
          · rw [if_neg htarget, List.nil_append]
            exact if_congr (by rw [List.mem_cons, or_iff_right htarget]) rfl rfl
      · have haway := away_of_not_connected hconnected
        have hindex : y.pool.index.get? target = none := by
          rw [index_of_bare hbare]
          exact hx.index_of_away haway
        rw [deliverFrame_of_away hindex]
        obtain ⟨mail, hall, hsent, hassembler⟩ := ih hnodup hbare hmail
        refine ⟨mail, hall, hsent.congr fun shard identity hheld => ?_, hassembler⟩
        -- nobody has a connection in the name of the target
        have htarget : identity ≠ target := by
          rintro rfl
          rw [haway shard] at hheld
          exact Bool.false_ne_true hheld
        exact congrArg _ (if_congr (by rw [List.mem_cons, or_iff_right htarget]) rfl rfl)

/-- The consumer sends a frame to those the message is for. -/
theorem handlePublished_event (hwell : x.services.outages = []) (e : Envelope) (frame : Bytes) :
    x.handlePublished (e.event frame) = x.deliverPublished frame (x.targets e) := by
  rw [Envelope.event, targets]
  cases e.deliveryKind with
  | direct => rfl
  | group =>
      have hcall : x.attempt .membersOf = (.ok (), x) := by
        rw [attempt, Services.attempt_of_well hwell]
      dsimp only
      rw [handlePublished, hcall]

theorem consume_of_event {b b' : Broker} {subscriber : Nat} {event : BrokerEvent}
    (hconsumer : x.pool.consumer = some subscriber) (hpublishing : x.services.publishing = .broker b)
    (hread : b.read subscriber = (.event event, b')) :
    x.consume = (x.withBroker b').handlePublished event := by
  rw [consume, hconsumer, hpublishing]
  dsimp only
  rw [hread]
  rfl

/-- **The consumer reads the next frame and sends it to those it is for.** -/
theorem consume_of_awaits {subscriber : Nat} {e : Envelope} {b : Broker} {frame : Bytes}
    {unread : List Bytes} (hx : x.Orderly) (hconsumer : x.pool.consumer = some subscriber)
    (hb : b.Awaits subscriber ((frame :: unread).map e.event))
    (hbare : y.bare = (x.withBroker b).bare) {sent : Nat → String → List Bytes}
    (hmail : x.Mailed y.mail sent) :
    ∃ b' mail, b'.Awaits subscriber (unread.map e.event) ∧ b'.capacity = b.capacity ∧
      y.consume.view = { y.view with bare := (x.withBroker b').bare, mail } ∧
      (x.Mailed mail fun shard identity =>
        sent shard identity ++ if identity ∈ x.targets e then [frame] else []) ∧
      y.consume.assembler? = y.assembler? := by
  obtain ⟨b', hread, hcapacity, hb'⟩ := Broker.read_of_awaits_cons hb
  have hbare' : (y.withBroker b').bare = (x.withBroker b').bare :=
    congrArg (·.withBroker b') hbare
  have hconsume : y.consume = (y.withBroker b').deliverPublished frame (x.targets e) := by
    rw [consume_of_event ((consumer_of_bare hbare).trans hconsumer) (publishing_of_bare hbare) hread,
      handlePublished_event ((outages_of_bare hbare').trans hx.well), targets, targets,
      groups_of_bare hbare']
    rfl
  obtain ⟨mail, hview, hmail', hassembler⟩ := mailed_deliverPublished (hx.withBroker b') frame
    (nodup_targets hx e) hbare' (mailed_withBroker.2 hmail)
  rw [← hconsume] at hview hassembler
  refine ⟨b', mail, hb', hcapacity, ?_, mailed_withBroker.1 hmail', hassembler⟩
  rw [hview, ← hbare']
  rfl

theorem consume_of_awaits_nil {subscriber : Nat} {b : Broker}
    (hconsumer : x.pool.consumer = some subscriber) (hb : b.Awaits subscriber [])
    (hbare : y.bare = (x.withBroker b).bare) : y.consume = y :=
  consume_of_caughtUp (caughtUp_of_awaits ((consumer_of_bare hbare).trans hconsumer)
    (publishing_of_bare hbare) hb)

/-- As many frames are to be read as the consumer has events before it. -/
theorem consuming_of_awaits {subscriber : Nat} {b : Broker} {events : List BrokerEvent}
    (hconsumer : x.pool.consumer = some subscriber) (hb : b.Awaits subscriber events)
    (hbare : y.bare = (x.withBroker b).bare) :
    y.consuming = List.replicate events.length .consume := by
  have hpublishing : y.services.publishing = .broker b := publishing_of_bare hbare
  rw [consuming, (consumer_of_bare hbare).trans hconsumer, hpublishing]
  dsimp only
  rw [Broker.backlog_of_awaits hb]

end Consumer

/-! ## A message that was published -/

/-- A message was published: the consumer has read some of its frames, and those it is for were sent
these. -/
structure Heard (x : Exchange) (shard subscriber : Nat) (e : Envelope) (k : Stock)
    (read unread : List Bytes) (y : Exchange) : Prop where
  bare : ∃ b : Broker, b.Awaits subscriber (unread.map e.event) ∧ y.bare = (x.withBroker b).bare
  rest : y.AtRest
  mail : x.Mailed y.mail fun _ identity => if identity ∈ x.targets e then read else []
  offline : y.services.offline = k.offline
  joined : y.assembler? = Function.update x.assembler? shard k.assembler

section Heard

variable {x y : Exchange} {shard subscriber : Nat} {e : Envelope} {k : Stock} {frame : Bytes}
  {read unread : List Bytes}

/-- Right after it was routed, nobody was sent a frame. -/
theorem heard_of_dispatched {b : Broker} {s : Errand} {frames : List Bytes}
    (hb : b.Awaits subscriber (frames.map e.event))
    (h : (x.withBroker b).Dispatched x.calm shard e [] k (x.targets e) s) :
    x.Heard shard subscriber e (k.keepAll x.now e (x.absent (x.targets e))) [] frames s.exchange where
  bare := ⟨b, hb, h.bare⟩
  rest id := by
    rw [h.traffic, handed_lanesFrom, due_nil, ite_self]
    rfl
  mail := by
    refine (mailed_withBroker.1 h.mail).congr fun id identity _ => ?_
    rw [ite_self, lanesFrom, due_nil]
    split
    · rfl
    · rfl
  offline := by
    have hoffline := congrArg Stock.offline h.stock
    exact hoffline
  joined := by
    have hjoined := assembler?_of_dispatched h
    exact hjoined

/-- **The consumer sends the next frame to those it is for.** -/
theorem heard_consume (hx : x.Orderly) (hconsumer : x.pool.consumer = some subscriber)
    (h : x.Heard shard subscriber e k read (frame :: unread) y) :
    x.Heard shard subscriber e k (read ++ [frame]) unread y.consume := by
  obtain ⟨b, hb, hbare⟩ := h.bare
  obtain ⟨b', mail, hb', -, hview, hmail, hassembler⟩ :=
    consume_of_awaits hx hconsumer hb hbare h.mail
  refine ⟨⟨b', hb', bare_of_view hview⟩,
    fun id => (traffic_of_view hview id).trans (h.rest id), ?_, ?_, hassembler.trans h.joined⟩
  · rw [mail_of_view hview]
    refine hmail.congr fun id identity _ => ?_
    split
    · rfl
    · rfl
  · exact (offline_of_view hview).trans h.offline

theorem heard_consume_of_nil (hconsumer : x.pool.consumer = some subscriber)
    (h : x.Heard shard subscriber e k read [] y) : y.consume = y := by
  obtain ⟨b, hb, hbare⟩ := h.bare
  exact consume_of_awaits_nil hconsumer hb hbare

theorem consuming_of_heard (hconsumer : x.pool.consumer = some subscriber)
    (h : x.Heard shard subscriber e k read unread y) :
    y.consuming = List.replicate unread.length .consume := by
  obtain ⟨b, hb, hbare⟩ := h.bare
  rw [consuming_of_awaits hconsumer hb hbare, List.length_map]

/-- **Whatever is done next, no frame is lost and none is sent twice.** -/
theorem heard_act (hx : x.Orderly) (hconsumer : x.pool.consumer = some subscriber)
    (h : x.Heard shard subscriber e k read unread y) {action : Action}
    (haction : action.serves = true) : ∃ read' unread', read' ++ unread' = read ++ unread ∧
      x.Heard shard subscriber e k read' unread' (y.act action) := by
  have hsame : y.act action = y → ∃ read' unread', read' ++ unread' = read ++ unread ∧
      x.Heard shard subscriber e k read' unread' (y.act action) := by
    intro hact
    rw [hact]
    exact ⟨read, unread, rfl, h⟩
  cases action, haction using Action.serves_cases with
  | take id => exact hsame (take_of_idle (h.rest id))
  | finish id slot => exact hsame (finish_of_idle (h.rest id) slot)
  | relay id => exact hsame (relay_of_idle (h.rest id))
  | answer =>
      obtain ⟨b, -, hbare⟩ := h.bare
      exact hsame (answer_of_nil ((prompts_of_bare hbare).trans hx.noPrompt))
  | consume =>
      cases unread with
      | nil => exact hsame (heard_consume_of_nil hconsumer h)
      | cons frame unread =>
          refine ⟨read ++ [frame], unread, ?_, heard_consume hx hconsumer h⟩
          rw [List.append_assoc, List.singleton_append]

/-- The consumer can read all frames. -/
theorem heard_settles (hx : x.Orderly) (hconsumer : x.pool.consumer = some subscriber)
    (h : x.Heard shard subscriber e k read unread y) :
    ∃ more : List Action, (∀ action ∈ more, action.serves = true) ∧
      x.Heard shard subscriber e k (read ++ unread) [] (y.run more) := by
  induction unread generalizing read y with
  | nil => exact ⟨[], fun _ hmem => absurd hmem List.not_mem_nil, by rwa [List.append_nil]⟩
  | cons frame unread ih =>
      obtain ⟨more, hmore, hend⟩ := ih (heard_consume hx hconsumer h)
      rw [List.append_assoc, List.singleton_append] at hend
      exact ⟨.consume :: more, List.forall_mem_cons.2 ⟨rfl, hmore⟩, hend⟩

end Heard

end Exchange

end Switchboard
