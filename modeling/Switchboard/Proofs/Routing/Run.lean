import Switchboard.Proofs.Fragment.Split
import Switchboard.Proofs.Routing.View

/-!
# Routing to the end

`Runs` says that a part of the routing of a task comes to its end, with what value and in what state.
There is one rule for two parts in sequence and one lemma for each part. Put together they say what
routing a direct message does, wherever its target is: `view_routeTask_of_here`,
`view_routeTask_of_elsewhere` and `view_routeTask_of_offline`.
-/

namespace Switchboard

namespace Envelope

/-- The frames a message goes out in. `fresh` and `now` are the identity and time it is given if it
has to be split and has none. -/
def frames (limits : FragmentLimits) (fresh : String) (now : Int64) (e : Envelope) (raw : Bytes) :
    List Bytes :=
  if e.isOversized limits then ((e.completed fresh now).fragments limits).map encode else [raw]

/-- Whether a message has to be split. What is a fragment already never has to be. -/
def isSplit (limits : FragmentLimits) (e : Envelope) : Bool :=
  !e.isFragment && e.isOversized limits

/-- The frames of a message, or why there are none. -/
def framed (limits : FragmentLimits) (fresh : String) (now : Int64) (e : Envelope) (raw : Bytes) :
    Except FragmentFault (List Bytes) :=
  if e.isSplit limits then
    match e.split limits fresh now with
    | .ok fragments => .ok (fragments.map encode)
    | .error fault => .error fault
  else .ok [raw]

/-- The number of identities handed out after the frames of a message were made. -/
def drawn (limits : FragmentLimits) (issued : Nat) (e : Envelope) : Nat :=
  if e.isSplit limits ∧ e.messageId = "" then issued + 1 else issued

theorem le_drawn (limits : FragmentLimits) (issued : Nat) (e : Envelope) :
    issued ≤ e.drawn limits issued := by
  rw [drawn]
  split
  · exact Nat.le_succ issued
  · exact Nat.le_refl issued

/-- A whole message that does not need too many fragments goes out in its frames. -/
theorem framed_of_whole {limits : FragmentLimits} {fresh : String} {now : Int64} {e : Envelope}
    (hwhole : e.isFragment = false) (hsplits : e.isOversized limits = true →
      limits.required (e.completed fresh now).encode.length ≤ limits.cap.toNat) (raw : Bytes) :
    e.framed limits fresh now raw = .ok (e.frames limits fresh now raw) := by
  rw [framed, frames, isSplit, hwhole]
  by_cases hfits : e.isOversized limits = true
  · rw [hfits, split_eq, if_neg (Nat.not_lt.2 (hsplits hfits))]
    rfl
  · rw [Bool.eq_false_iff.2 hfits]
    rfl

/-- Every message goes out in some frame. -/
theorem frames_ne_nil (limits : FragmentLimits) (fresh : String) (now : Int64) (e : Envelope)
    (raw : Bytes) : e.frames limits fresh now raw ≠ [] := by
  rw [frames]
  split
  · exact fun hnil => fragments_ne_nil limits _ (List.map_eq_nil_iff.1 hnil)
  · exact List.cons_ne_nil _ _

/-- A message that has an identity is not given one. -/
theorem completed_of_named {e : Envelope} (h : e.messageId ≠ "") (fresh fresh' : String)
    (now : Int64) : e.completed fresh now = e.completed fresh' now := by
  rw [completed, completed, if_neg h, if_neg h]

/-- What is kept of a message for a target that is away: nothing of a call signal, and one unread
record of anything else. The identities with the numbers from `first` up to `next` are fresh. -/
def Kept (e : Envelope) (target : String) (now first next : Nat) (kept : OfflineStore) : Prop :=
  (e.contentKind.isCallSignal = true → kept = []) ∧
  (e.contentKind.isCallSignal = false → ∃ id,
    (e.messageId ≠ "" → id = e.messageId) ∧
    (e.messageId = "" → ∃ n, first ≤ n ∧ n < next ∧ id = Exchange.formatId n) ∧
    kept = [{ messageId := id, sender := e.sender, target, content := e.content, isRead := false
              createdAt := now }])

/-- A record that is kept with a fresh identity is kept with one that is fresh for longer. -/
theorem Kept.mono {e : Envelope} {target : String} {now first first' next next' : Nat}
    {kept : OfflineStore} (h : e.Kept target now first' next kept) (hfirst : first ≤ first')
    (hnext : next ≤ next') : e.Kept target now first next' kept := by
  refine ⟨h.1, fun hsignal => ?_⟩
  obtain ⟨id, hnamed, hfresh, hkept⟩ := h.2 hsignal
  refine ⟨id, hnamed, fun hid => ?_, hkept⟩
  obtain ⟨n, hge, hlt, heq⟩ := hfresh hid
  exact ⟨n, Nat.le_trans hfirst hge, Nat.lt_of_lt_of_le hlt hnext, heq⟩

end Envelope

namespace Exchange

/-- There is no broker, no service is out, the shards reach the index, and each of them has the
limits of the configuration. -/
structure Plain (x : Exchange) : Prop where
  off : x.services.publishing = .off
  well : x.services.outages = []
  reachable : x.pool.isReachable = true
  limits : ∀ shard s, x.shard? shard = some s → s.assembler.limits = x.config.fragment.limits

/-- Nobody takes what is published. -/
def Mute (x : Exchange) : Prop := ∀ event, x.publish event = none

/-- Without a broker nobody takes anything. -/
theorem mute_of_off {x : Exchange} (h : x.services.publishing = .off) : x.Mute := by
  intro event
  rw [publish, h]

/-- A message is for one person, can be measured in eight octets, and does not need more fragments
than there may be. -/
structure Direct (x : Exchange) (e : Envelope) : Prop where
  recipient : e.recipient ≠ ""
  kind : e.deliveryKind = .direct
  person : x.services.isAssistant e.recipient = false
  whole : e.isFragment = false
  measured : (e.completed (formatId x.issued) x.timestamp).encode.length < 256 ^ 8
  splits : e.isOversized x.config.fragment.limits = true →
    x.config.fragment.limits.required
      (e.completed (formatId x.issued) x.timestamp).encode.length
        ≤ x.config.fragment.limits.cap.toNat

/-- The frames that a message goes out in, wherever it comes from and goes to. -/
def frames (x : Exchange) (e : Envelope) (raw : Bytes) : List Bytes :=
  e.frames x.config.fragment.limits (formatId x.issued) x.timestamp raw

/-- Every frame of a message reads as an envelope. -/
theorem decode_of_mem_frames {x : Exchange} {e : Envelope} {raw frame : Bytes} (he : x.Direct e)
    (hdecode : Envelope.decode raw = .ok e) (h : frame ∈ x.frames e raw) :
    ∃ f, Envelope.decode frame = .ok f := by
  rw [frames, Envelope.frames] at h
  split at h
  · obtain ⟨f, hf, rfl⟩ := List.mem_map.1 h
    exact ⟨f, Envelope.decode_encode (Envelope.fits_of_mem_fragments he.measured hf)⟩
  · obtain rfl := List.mem_singleton.1 h
    exact ⟨e, hdecode⟩

theorem whereabouts_of_holder? {x : Exchange} {shard : Nat} {target : String} {session : Session}
    (h : x.holder? shard target = some session) : x.whereabouts shard target = .here session := by
  rw [whereabouts, h]

theorem whereabouts_of_index {x : Exchange} {shard owner : Nat} {target : String}
    (hnone : x.holder? shard target = none) (hreachable : x.pool.isReachable = true)
    (hindex : x.pool.index.get? target = some owner) (hne : owner ≠ shard) :
    x.whereabouts shard target = .elsewhere owner := by
  rw [whereabouts, hnone, if_pos hreachable, hindex]
  exact if_neg hne

end Exchange

namespace Routing

variable {α β : Type} {s s' s'' : Errand} {a : α} {b : β}

/-- A part comes to its end. -/
def Runs (part : Routing α) (s : Errand) (a : α) (s' : Errand) : Prop :=
  part.run.run s = (.ok a, s')

/-- After a part that has come to its end, the next one runs from where it stopped. -/
theorem Runs.run_bind {part : Routing α} (h : Runs part s a s') (next : α → Routing β) :
    (part >>= next).run.run s = (next a).run.run s' := by
  change ExceptT.bindCont next (part.run.run s).1 (part.run.run s).2 = _
  rw [h]
  rfl

/-- Two parts in sequence come to the end of the second. -/
theorem Runs.bind {part : Routing α} {next : α → Routing β} (h : Runs part s a s')
    (h' : Runs (next a) s' b s'') : Runs (part >>= next) s b s'' := by
  change ExceptT.bindCont next (part.run.run s).1 (part.run.run s).2 = _
  rw [h]
  exact h'

theorem Runs.get_bind {next : Errand → Routing β} (h : Runs (next s) s b s') :
    Runs (get >>= next) s b s' := Runs.bind rfl h

theorem Runs.set_bind {next : PUnit → Routing β} (h : Runs (next ()) s' b s'') :
    Runs (set s' >>= next) s b s'' := Runs.bind rfl h

theorem Runs.pure_bind {next : α → Routing β} (h : Runs (next a) s b s') :
    Runs (pure a >>= next) s b s' := Runs.bind rfl h

theorem Runs.exchange_bind {next : Exchange → Routing β} (h : Runs (next s.exchange) s b s') :
    Runs (exchange >>= next) s b s' := Runs.bind rfl h

theorem Runs.freshId_bind {next : String → Routing β}
    (h : Runs (next (Exchange.formatId s.exchange.issued))
      { s with exchange := s.exchange.freshId.2 } b s') :
    Runs (freshId >>= next) s b s' := Runs.bind rfl h

theorem run_pure_bind (a : α) (next : α → Routing β) (s : Errand) :
    (pure a >>= next).run.run s = (next a).run.run s := rfl

theorem run_exchange_bind (next : Exchange → Routing β) (s : Errand) :
    (exchange >>= next).run.run s = (next s.exchange).run.run s := rfl

theorem run_freshId_bind (next : String → Routing β) (s : Errand) :
    (freshId >>= next).run.run s = (next (Exchange.formatId s.exchange.issued)).run.run
      { s with exchange := s.exchange.freshId.2 } := rfl

/-! ## Parts -/

/-- One operation of the exchange that succeeds. -/
theorem runs_step {ε : Type} {wrap : ε → Stop} {f : Exchange → Except ε α × Exchange}
    {x : Exchange} (h : f s.exchange = (.ok a, x)) :
    Runs (step wrap f) s a { s with exchange := x } := by
  refine Runs.get_bind ?_
  rw [h]
  rfl

/-- A call of a service that is not out. -/
theorem runs_call (hwell : s.exchange.services.outages = []) (c : ServiceCall) :
    Runs (call c) s () s := by
  have hcall : s.exchange.attempt c = (.ok (), s.exchange) := by
    rw [Exchange.attempt, Services.attempt_of_well hwell]
  exact runs_step hcall

theorem runs_isOnline (hwell : s.exchange.services.outages = []) (target : String) :
    Runs (isOnline target) s (s.exchange.services.presence.isOnline target) s :=
  (runs_call hwell .isOnline).bind (Runs.exchange_bind rfl)

/-- Where nobody takes what is published, it is said that nothing was. -/
theorem runs_published (hmute : s.exchange.Mute) {events : List BrokerEvent}
    (hevents : events ≠ []) : Runs (published events) s false s := by
  have hnone : s.exchange.publishAll events = none := by
    -- of no events it would be said that they were published
    cases events with
    | nil => exact absurd rfl hevents
    | cons event events => rw [Exchange.publishAll, hmute]
  refine Runs.get_bind ?_
  rw [hnone]
  rfl

/-- A connection with room for all frames takes them in order. -/
theorem runs_sendAll (shard : Nat) {session : Session} {frames : List Bytes}
    (h : s.exchange.view.CanPost session frames.length) :
    ∃ y, Runs (sendAll shard session frames) s () { s with exchange := y } ∧
      y.view = s.exchange.view.post session frames := by
  induction frames generalizing s with
  | nil => exact ⟨s.exchange, rfl, (View.post_nil _ _).symm⟩
  | cons frame frames ih =>
      obtain ⟨y, hsend, hy⟩ :=
        Exchange.view_sendTo (h.mono (Nat.le_add_left 1 frames.length)) frame
      -- a frame takes up the room for one, and there is room for the others
      have hrest : y.view.CanPost session frames.length := by
        rw [hy]
        exact (h.mono (Nat.le_of_eq (Nat.add_comm 1 frames.length))).post
      obtain ⟨z, hz, hview⟩ := ih (s := { s with exchange := y }) hrest
      refine ⟨z, ?_, ?_⟩
      · refine Runs.get_bind ?_
        rw [hsend]
        exact Runs.set_bind hz
      · rw [hview, hy, View.post_post]
        rfl

/-- The same, and the message is counted. -/
theorem runs_write (shard : Nat) {session : Session} {frames : List Bytes}
    (h : s.exchange.view.CanPost session frames.length) :
    ∃ y, Runs (write shard session frames) s () { s with exchange := y } ∧
      y.view = s.exchange.view.post session frames := by
  obtain ⟨y, hy, hview⟩ := runs_sendAll shard h
  exact ⟨_, hy.bind (b := ()) rfl, (Exchange.view_mapCounters ..).trans hview⟩

/-- A shard with room for all frames is handed them in order. -/
theorem runs_forward {owner : Nat} (target : String) {frames : List Bytes}
    (h : s.exchange.view.CanForward owner frames.length) :
    ∃ y, Runs (forward owner target frames) s () { s with exchange := y } ∧
      y.view = s.exchange.view.setTraffic owner
        { s.exchange.view.traffic owner with
          forward := (s.exchange.view.traffic owner).forward ++ frames.map (Handover.mk target) } ∧
      y.assembler? = s.exchange.assembler? := by
  induction frames generalizing s with
  | nil =>
      refine ⟨s.exchange, rfl, ?_, rfl⟩
      rw [List.map_nil, List.append_nil]
      exact (View.setTraffic_self _ _).symm
  | cons frame frames ih =>
      obtain ⟨y, hhand, hy⟩ :=
        Exchange.view_handOver (h.mono (Nat.le_add_left 1 frames.length)) target frame
      have hrest : y.view.CanForward owner frames.length := by
        rw [hy]
        exact (h.mono (Nat.le_of_eq (Nat.add_comm 1 frames.length))).append
      obtain ⟨z, hz, hview, hassembler⟩ := ih (s := { s with exchange := y }) hrest
      refine ⟨z, (runs_step hhand).bind hz, ?_, hassembler.trans ?_⟩
      · rw [hview, hy, View.setTraffic_setTraffic, View.traffic_setTraffic]
        simp only [List.append_assoc, List.map_cons, List.cons_append, List.nil_append]
      · have hsame := s.exchange.assembler?_handOver owner target frame
        rwa [hhand] at hsame

/-- The exchange with a message kept for a target. -/
def keep (x : Exchange) (shard : Nat) (e : Envelope) (target id : String) : Exchange :=
  let kept := x.services.offline.persist id e.sender target e.content x.now
  { x with services.offline := kept }.mapCounters shard fun c =>
    { c with persisted := c.persisted + 1 }

theorem view_keep (x : Exchange) (shard : Nat) (e : Envelope) (target id : String) :
    (keep x shard e target id).view
      = { x.view with offline := x.services.offline.persist id e.sender target e.content x.now } :=
  Exchange.view_mapCounters ..

/-- A message that is no fragment is kept as it is. -/
theorem runs_resolve (shard : Nat) {e : Envelope} (hwhole : e.isFragment = false) :
    Runs (resolve shard e) s (some e) s := by
  rw [Runs, resolve, hwhole]
  rfl

/-- A call signal is not kept. -/
theorem runs_store_of_signal (shard : Nat) {e : Envelope} (hwhole : e.isFragment = false)
    (hsignal : e.contentKind.isCallSignal = true) (target : String) :
    Runs (store shard e target) s () s := by
  refine (runs_resolve shard hwhole).bind ?_
  simp only [if_pos hsignal]
  rfl

/-- A message with an identity is kept under it. -/
theorem runs_store_of_named (hwell : s.exchange.services.outages = []) (shard : Nat)
    {e : Envelope} (hwhole : e.isFragment = false) (hsignal : e.contentKind.isCallSignal = false)
    (hid : e.messageId ≠ "") (target : String) : Runs (store shard e target) s ()
      { s with exchange := keep s.exchange shard e target e.messageId } := by
  refine (runs_resolve shard hwhole).bind ?_
  simp only [hsignal, Bool.false_eq_true, if_false, if_neg hid]
  refine Runs.pure_bind ?_
  exact (runs_call hwell .persist).bind rfl

/-- One without is kept under a fresh identity. -/
theorem runs_store_of_unnamed (hwell : s.exchange.services.outages = []) (shard : Nat)
    {e : Envelope} (hwhole : e.isFragment = false) (hsignal : e.contentKind.isCallSignal = false)
    (hid : e.messageId = "") (target : String) : Runs (store shard e target) s () { s with
      exchange := keep s.exchange.freshId.2 shard e target
        (Exchange.formatId s.exchange.issued) } := by
  refine (runs_resolve shard hwhole).bind ?_
  simp only [hsignal, Bool.false_eq_true, if_false, if_pos hid]
  refine Runs.freshId_bind ?_
  exact Runs.bind (runs_call (s := { s with exchange := s.exchange.freshId.2 }) hwell .persist) rfl

/-- A message for a target that is away is kept, unless it is a call signal. -/
theorem runs_store (hwell : s.exchange.services.outages = []) (shard : Nat) {e : Envelope}
    (hwhole : e.isFragment = false) (target : String) :
    ∃ y n kept, Runs (store shard e target) s () { s with exchange := y } ∧
      s.exchange.issued ≤ n ∧ e.Kept target s.exchange.now s.exchange.issued n kept ∧
      y.view = { s.exchange.view with
        offline := s.exchange.services.offline ++ kept, issued := n } := by
  cases hsignal : e.contentKind.isCallSignal with
  | true =>
      refine ⟨s.exchange, s.exchange.issued, [], runs_store_of_signal shard hwhole hsignal target,
        Nat.le_refl _, ⟨fun _ => rfl, fun h => ?_⟩, ?_⟩
      · -- a call signal is none of what is kept
        exact absurd (hsignal.symm.trans h).symm Bool.false_ne_true
      · rw [List.append_nil]
        rfl
  | false =>
      have hnot : ¬ e.contentKind.isCallSignal = true := by
        rw [hsignal]
        exact Bool.false_ne_true
      by_cases hid : e.messageId = ""
      · exact ⟨_, s.exchange.issued + 1, _,
          runs_store_of_unnamed hwell shard hwhole hsignal hid target, Nat.le_succ _,
          ⟨fun h => absurd h hnot, fun _ => ⟨_, fun h => absurd hid h,
            fun _ => ⟨s.exchange.issued, Nat.le_refl _, Nat.lt_succ_self _, rfl⟩, rfl⟩⟩,
          view_keep ..⟩
      · exact ⟨_, s.exchange.issued, _,
          runs_store_of_named hwell shard hwhole hsignal hid target, Nat.le_refl _,
          ⟨fun h => absurd h hnot, fun _ => ⟨_, fun _ => rfl, fun h => absurd h hid, rfl⟩⟩,
          view_keep ..⟩

/-- **Making the frames of a message.** An identity is drawn only for one that has to be split and
has none. -/
theorem run_outboundFrames {shard : Nat} {t : Shard} (ht : s.exchange.shard? shard = some t)
    (e : Envelope) (raw : Bytes) : (outboundFrames shard e raw).run.run s
      = (match e.framed t.assembler.limits (Exchange.formatId s.exchange.issued)
            s.exchange.timestamp raw with
          | .ok frames => .ok frames
          | .error fault => .error (.fault (.fragment fault)),
        { s with exchange := { s.exchange with
          issued := e.drawn t.assembler.limits s.exchange.issued } }) := by
  -- what is asked is whether the message need not be split
  have hwhole : (e.isFragment || !e.isOversized t.assembler.limits)
      = !e.isSplit t.assembler.limits := by
    rw [Envelope.isSplit, Bool.not_and, Bool.not_not]
  refine (run_exchange_bind _ s).trans ?_
  rw [ht, Envelope.framed, Envelope.drawn]
  dsimp only
  rw [hwhole]
  cases hsplit : e.isSplit t.assembler.limits with
  | false => rfl
  | true =>
      simp only [Bool.not_true, Bool.false_eq_true, if_false, if_true, true_and]
      by_cases hid : e.messageId = ""
      · rw [if_pos hid, if_pos hid, run_freshId_bind]
        cases e.split t.assembler.limits (Exchange.formatId s.exchange.issued)
          s.exchange.timestamp with
        | ok fragments => rfl
        | error fault => rfl
      · -- one that has an identity is split as it would be with a fresh one
        have hsame : e.split t.assembler.limits "" s.exchange.timestamp
            = e.split t.assembler.limits (Exchange.formatId s.exchange.issued)
              s.exchange.timestamp := by
          rw [Envelope.split_eq, Envelope.split_eq, Envelope.completed_of_named hid]
        rw [if_neg hid, if_neg hid, run_pure_bind, hsame]
        cases e.split t.assembler.limits (Exchange.formatId s.exchange.issued)
          s.exchange.timestamp with
        | ok fragments => rfl
        | error fault => rfl

/-- A message goes out in its frames if they are not too many. -/
theorem runs_outboundFrames {shard : Nat} {t : Shard} (ht : s.exchange.shard? shard = some t)
    {e : Envelope} (hwhole : e.isFragment = false)
    (hsplits : e.isOversized t.assembler.limits = true →
      t.assembler.limits.required
        (e.completed (Exchange.formatId s.exchange.issued) s.exchange.timestamp).encode.length
          ≤ t.assembler.limits.cap.toNat) (raw : Bytes) :
    ∃ n, s.exchange.issued ≤ n ∧ Runs (outboundFrames shard e raw) s
      (e.frames t.assembler.limits (Exchange.formatId s.exchange.issued) s.exchange.timestamp raw)
      { s with exchange := { s.exchange with issued := n } } := by
  refine ⟨_, e.le_drawn t.assembler.limits s.exchange.issued, ?_⟩
  rw [Runs, run_outboundFrames ht, Envelope.framed_of_whole hwhole hsplits]

/-! ## One target -/

section Target

variable {shard : Nat} {e : Envelope} {target : String} {frames : List Bytes}

/-- Somebody on the same shard gets the frames. -/
theorem runs_deliver_of_here (shard : Nat) (hx : s.exchange.Plain)
    (honline : s.exchange.services.presence.isOnline target = true) {session : Session}
    (hheld : s.exchange.holder? shard target = some session) (hframes : frames ≠ [])
    (hroom : s.exchange.view.CanPost session frames.length) :
    ∃ y, Runs (deliver shard e target frames) s () { s with exchange := y } ∧
      y.view = s.exchange.view.post session frames := by
  obtain ⟨y, hwrite, hview⟩ := runs_write shard hroom
  refine ⟨y, (runs_isOnline hx.well target).bind ?_, hview⟩
  rw [honline]
  refine Runs.exchange_bind ?_
  rw [Exchange.whereabouts_of_holder? hheld]
  -- there are frames, so nobody takes them for published
  have hevents : frames.map (BrokerEvent.direct target) ≠ [] :=
    fun hnil => hframes (List.map_eq_nil_iff.1 hnil)
  exact (runs_published (Exchange.mute_of_off hx.off) hevents).bind hwrite

/-- For somebody on another shard the frames are handed over to that. -/
theorem runs_deliver_of_elsewhere (hx : s.exchange.Plain)
    (honline : s.exchange.services.presence.isOnline target = true) {owner : Nat}
    (hnone : s.exchange.holder? shard target = none)
    (hindex : s.exchange.pool.index.get? target = some owner) (hne : owner ≠ shard)
    (hroom : s.exchange.view.CanForward owner frames.length) :
    ∃ y, Runs (deliver shard e target frames) s () { s with exchange := y } ∧
      y.view = s.exchange.view.setTraffic owner
        { s.exchange.view.traffic owner with
          forward := (s.exchange.view.traffic owner).forward
            ++ frames.map (Handover.mk target) } := by
  obtain ⟨y, hforward, hview, -⟩ := runs_forward target hroom
  refine ⟨y, (runs_isOnline hx.well target).bind ?_, hview⟩
  rw [honline]
  refine Runs.exchange_bind ?_
  rw [Exchange.whereabouts_of_index hnone hx.reachable hindex hne]
  exact hforward

/-- For somebody who is away the message is kept. -/
theorem runs_deliver_of_offline (shard : Nat) (frames : List Bytes) (hx : s.exchange.Plain)
    (hoffline : s.exchange.services.presence.isOnline target = false)
    (hwhole : e.isFragment = false) :
    ∃ y n kept, Runs (deliver shard e target frames) s () { s with exchange := y } ∧
      s.exchange.issued ≤ n ∧ e.Kept target s.exchange.now s.exchange.issued n kept ∧
      y.view = { s.exchange.view with
        offline := s.exchange.services.offline ++ kept, issued := n } := by
  obtain ⟨y, n, kept, hstore, hle, hkept, hview⟩ := runs_store hx.well shard hwhole target
  refine ⟨y, n, kept, (runs_isOnline hx.well target).bind ?_, hle, hkept, hview⟩
  rw [hoffline]
  exact hstore

theorem runs_routeForwarded {raw : Bytes} {session : Session}
    (hheld : s.exchange.holder? shard target = some session)
    (hroom : s.exchange.view.CanPost session 1) :
    ∃ y, Runs (routeForwarded shard target e raw) s () { s with exchange := y } ∧
      y.view = s.exchange.view.post session [raw] := by
  have hroom' : s.exchange.view.CanPost session [raw].length := hroom
  obtain ⟨y, hwrite, hview⟩ := runs_write shard hroom'
  refine ⟨y, Runs.exchange_bind ?_, hview⟩
  rw [hheld]
  exact hwrite

end Target

end Routing

/-! ## Whole tasks -/

namespace Exchange

variable {x y : Exchange} {shard : Nat} {e : Envelope} {raw : Bytes} {session : Session}

/-- What routing a task comes to is what its parts come to. -/
theorem routeTask_of_runs {task : Task} {s : Errand}
    (h : (Routing.route shard task).Runs { exchange := x, copy := .unresolved } () s) :
    x.routeTask shard task = s.exchange := by
  have hrun : (Routing.route shard task).run.run { exchange := x, copy := .unresolved }
      = (.ok (), s) := h
  rw [routeTask, hrun]

/-- **A frame that was handed over goes to the connection it is for.** -/
theorem view_routeTask_of_forwarded {target : String}
    (hheld : x.holder? shard target = some session) (hroom : x.view.CanPost session 1) :
    (x.routeTask shard { envelope := e, raw, origin := .forwarded target }).view
      = x.view.post session [raw] := by
  obtain ⟨y, hy, hview⟩ := Routing.runs_routeForwarded
    (s := { exchange := x, copy := .unresolved }) (e := e) hheld hroom
  have hroute : (Routing.route shard { envelope := e, raw, origin := .forwarded target }).Runs
      { exchange := x, copy := .unresolved } () { exchange := y, copy := .unresolved } := hy
  rw [routeTask_of_runs hroute]
  exact hview

/-- A direct message is delivered in its frames, once they are made. -/
theorem routeTask_of_deliver (hx : x.Plain) (he : x.Direct e) (hshard : (x.shard? shard).isSome)
    (raw : Bytes) : ∃ n, x.issued ≤ n ∧ ∀ y,
      (Routing.deliver shard e e.recipient (x.frames e raw)).Runs
        { exchange := { x with issued := n }, copy := .unresolved } ()
        { exchange := y, copy := .unresolved } →
      x.routeTask shard { envelope := e, raw, origin := .inbound } = y := by
  obtain ⟨t, ht⟩ := Option.isSome_iff_exists.1 hshard
  have hlimits := hx.limits shard t ht
  obtain ⟨n, hle, hframes⟩ := Routing.runs_outboundFrames
    (s := { exchange := x, copy := .unresolved }) ht he.whole
    (by rw [hlimits]; exact he.splits) raw
  rw [hlimits] at hframes
  refine ⟨n, hle, fun y hdeliver => ?_⟩
  -- the task is no notice, it is for one person, and this is not the assistant
  have hroute : (Routing.route shard { envelope := e, raw, origin := .inbound }).Runs
      { exchange := x, copy := .unresolved } () { exchange := y, copy := .unresolved } := by
    have hnotice : e.isNotice = false := beq_eq_false_iff_ne.2 he.recipient
    rw [Routing.route]
    simp only [hnotice, Bool.false_eq_true, if_false, he.kind]
    refine Routing.Runs.exchange_bind ?_
    simp only [he.person, Bool.false_eq_true, if_false]
    exact hframes.bind hdeliver
  exact routeTask_of_runs hroute

/-- **A message for somebody on the same shard goes to the connection.** -/
theorem view_routeTask_of_here (hx : x.Plain) (he : x.Direct e)
    (hshard : (x.shard? shard).isSome)
    (honline : x.services.presence.isOnline e.recipient = true)
    (hheld : x.holder? shard e.recipient = some session)
    (hroom : x.view.CanPost session (x.frames e raw).length) : ∃ n, x.issued ≤ n ∧
      (x.routeTask shard { envelope := e, raw, origin := .inbound }).view
        = { x.view with issued := n }.post session (x.frames e raw) := by
  obtain ⟨n, hle, hroute⟩ := routeTask_of_deliver hx he hshard raw
  obtain ⟨y, hy, hview⟩ := Routing.runs_deliver_of_here (e := e)
    (s := { exchange := { x with issued := n }, copy := .unresolved }) shard
    ⟨hx.off, hx.well, hx.reachable, hx.limits⟩ honline hheld
    (Envelope.frames_ne_nil _ _ _ e raw) hroom
  refine ⟨n, hle, ?_⟩
  rw [hroute y hy]
  exact hview

/-- **A message for somebody on another shard is handed over to that.** -/
theorem view_routeTask_of_elsewhere (hx : x.Plain) (he : x.Direct e)
    (hshard : (x.shard? shard).isSome)
    (honline : x.services.presence.isOnline e.recipient = true) {owner : Nat}
    (hnone : x.holder? shard e.recipient = none)
    (hindex : x.pool.index.get? e.recipient = some owner) (hne : owner ≠ shard)
    (hroom : x.view.CanForward owner (x.frames e raw).length) : ∃ n, x.issued ≤ n ∧
      (x.routeTask shard { envelope := e, raw, origin := .inbound }).view
        = { x.view with issued := n }.setTraffic owner
          { x.view.traffic owner with
            forward := (x.view.traffic owner).forward
              ++ (x.frames e raw).map (Handover.mk e.recipient) } := by
  obtain ⟨n, hle, hroute⟩ := routeTask_of_deliver hx he hshard raw
  obtain ⟨y, hy, hview⟩ := Routing.runs_deliver_of_elsewhere (e := e)
    (s := { exchange := { x with issued := n }, copy := .unresolved })
    ⟨hx.off, hx.well, hx.reachable, hx.limits⟩ honline hnone hindex hne hroom
  refine ⟨n, hle, ?_⟩
  rw [hroute y hy]
  exact hview

/-- **A message for somebody who is away is kept.** -/
theorem view_routeTask_of_offline (hx : x.Plain) (he : x.Direct e)
    (hshard : (x.shard? shard).isSome)
    (hoffline : x.services.presence.isOnline e.recipient = false) : ∃ n kept, x.issued ≤ n ∧
      e.Kept e.recipient x.now x.issued n kept ∧
      (x.routeTask shard { envelope := e, raw, origin := .inbound }).view
        = { x.view with offline := x.services.offline ++ kept, issued := n } := by
  obtain ⟨n, hle, hroute⟩ := routeTask_of_deliver hx he hshard raw
  obtain ⟨y, n', kept, hy, hle', hkept, hview⟩ := Routing.runs_deliver_of_offline
    (s := { exchange := { x with issued := n }, copy := .unresolved }) shard (x.frames e raw)
    ⟨hx.off, hx.well, hx.reachable, hx.limits⟩ hoffline he.whole
  refine ⟨n', kept, Nat.le_trans hle hle', hkept.mono hle (Nat.le_refl _), ?_⟩
  rw [hroute y hy]
  exact hview

end Exchange

end Switchboard
