import Switchboard.Proofs.Routing.Sending

/-!
# Bringing frames on their way

A target with a connection that stays where it is gets a direct message along one path: at the shard
that has it the frames are written to its connection, and at any other they go into the forward queue
of that shard. Whatever else fails or is full, what comes out is that the first few of the frames are
there, and nothing else moved (`brings_inbound`, `brings_forwarded`).
-/

namespace Switchboard

namespace Envelope

/-- Frames that a message may go out in, with whatever identity and time it is given if it has none.
There are none if it would need too many fragments or is not sent at all. -/
def MadeInto (limits : FragmentLimits) (e : Envelope) (raw : Bytes) (frames : List Bytes) : Prop :=
  frames = [] ∨ ∃ fresh now, e.framed limits fresh now raw = .ok frames

end Envelope

namespace Exchange

theorem holder?_putDown (x : Exchange) (shard slot id : Nat) (identity : String) :
    (x.putDown shard slot).holder? id identity = x.holder? id identity := by
  rw [holder?, holder?, putDown, shard?_mapShard]
  by_cases hid : id = shard
  · rw [if_pos hid]
    cases x.shard? id with
    | none => rfl
    | some s => rfl
  · rw [if_neg hid]

theorem isSome_shard?_putDown {x : Exchange} {shard slot : Nat} {task : Task}
    (h : (x.traffic shard).inHand[slot]? = some task) :
    ((x.putDown shard slot).shard? shard).isSome := by
  rw [putDown, shard?_mapShard, if_pos rfl, Option.isSome_map]
  cases hs : x.shard? shard with
  | none =>
      have hnone : x.traffic shard = {} := traffic_of_none hs
      rw [hnone] at h
      exact absurd h.symm (Option.some_ne_none _)
  | some s => rfl

/-- There is no broker, and a target has one connection, on the shard that the index names. -/
structure Fixed (home owner : Nat) (target : String) (session : Session) (x : Exchange) : Prop where
  off : x.services.publishing = .off
  held : x.holder? owner target = some session
  /-- The shard that a message comes in at has nobody else under that name. -/
  apart : home ≠ owner → x.holder? home target = none
  index : x.pool.index.get? target = some owner
  limits : ∀ s, x.shard? home = some s → s.assembler.limits = x.config.fragment.limits

theorem fixed_of_shard? {home owner : Nat} {target : String} {session : Session} {x : Exchange}
    {s : Shard} (hoff : x.services.publishing = .off)
    (hheld : x.holder? owner target = some session)
    (hapart : home ≠ owner → x.holder? home target = none)
    (hindex : x.pool.index.get? target = some owner) (hs : x.shard? home = some s)
    (hlimits : s.assembler.limits = x.config.fragment.limits) :
    x.Fixed home owner target session := by
  refine ⟨hoff, hheld, hapart, hindex, fun t ht => ?_⟩
  obtain rfl := Option.some.inj (hs.symm.trans ht)
  exact hlimits

theorem Fixed.putDown {home owner : Nat} {target : String} {session : Session} {x : Exchange}
    (h : x.Fixed home owner target session) (shard slot : Nat) :
    (x.putDown shard slot).Fixed home owner target session where
  off := h.off
  held := (holder?_putDown ..).trans h.held
  apart hne := (holder?_putDown ..).trans (h.apart hne)
  index := h.index
  limits s hs := by
    rw [Exchange.putDown, shard?_mapShard] at hs
    split at hs
    · obtain ⟨t, ht, rfl⟩ := Option.map_eq_some_iff.1 hs
      exact h.limits t ht
    · exact h.limits s hs

/-- Frames were brought on their way to a target, at whose shard they came in or not. -/
structure Brought (home owner : Nat) (target : String) (session : Session) (frames : List Bytes)
    (x y : Exchange) : Prop where
  work : ∀ id, (y.traffic id).work = (x.traffic id).work
  forward : ∀ id, (y.traffic id).forward = (x.traffic id).forward
    ++ if id = owner ∧ home ≠ owner then frames.map (Handover.mk target) else []
  waiting : y.waiting session = x.waiting session ++ if home = owner then frames else []

variable {home owner : Nat} {target : String} {session : Session} {frames : List Bytes}
  {x y z : Exchange}

theorem brought_nil (h : y.outline = x.outline) : Brought home owner target session [] x y where
  work id := congrArg Traffic.work (congrFun (congrArg Outline.traffic h) id)
  forward id := by
    rw [List.map_nil, ite_self, List.append_nil]
    exact congrArg Traffic.forward (congrFun (congrArg Outline.traffic h) id)
  waiting := by
    rw [ite_self, List.append_nil]
    exact congrFun (congrArg Outline.waiting h) session

theorem Brought.of_same (h : Brought home owner target session frames y z)
    (hsame : y.outline = x.outline) : Brought home owner target session frames x z := by
  have htraffic := congrArg Outline.traffic hsame
  constructor
  · intro id
    rw [h.work, show y.traffic id = x.traffic id from congrFun htraffic id]
  · intro id
    rw [h.forward, show y.traffic id = x.traffic id from congrFun htraffic id]
  · rw [h.waiting, show y.waiting session = x.waiting session from
      congrFun (congrArg Outline.waiting hsame) session]

/-- A call of a service changes at most how often it flickered. -/
theorem attempt_snd (x : Exchange) (call : ServiceCall) :
    ∃ n, (x.attempt call).2 = { x with services.flickers := n } := by
  have hservices : ∃ n, (x.services.attempt call).2 = { x.services with flickers := n } := by
    rw [Services.attempt]
    split
    · exact ⟨_, rfl⟩
    · split
      · exact ⟨_, rfl⟩
      · exact ⟨_, rfl⟩
      · dsimp only
        split <;> exact ⟨_, rfl⟩
  obtain ⟨n, hn⟩ := hservices
  exact ⟨n, by rw [attempt]; dsimp only; rw [hn]⟩

end Exchange

namespace Routing

variable {home owner : Nat} {target : String} {session : Session} {e : Envelope}
  {frames : List Bytes} {raw : Bytes} {s : Errand} {x : Exchange}

/-- Whether a target is online can be asked, or not; what it is asked of stays the same. -/
theorem run_isOnline (target : String) (s : Errand) : ∃ n,
    let s' := { s with exchange := { s.exchange with services.flickers := n } }
    Runs (isOnline target) s (s.exchange.services.presence.isOnline target) s'
      ∨ ∃ stop, (isOnline target).run.run s = (.error stop, s') := by
  obtain ⟨n, hn⟩ := s.exchange.attempt_snd .isOnline
  refine ⟨n, ?_⟩
  cases hattempt : s.exchange.attempt .isOnline with
  | mk result y =>
      rw [hattempt] at hn
      obtain rfl : y = { s.exchange with services.flickers := n } := hn
      cases result with
      | ok u =>
          refine Or.inl ?_
          have hcall : Runs (call .isOnline) s ()
              { s with exchange := { s.exchange with services.flickers := n } } :=
            runs_step hattempt
          exact hcall.bind (Runs.exchange_bind rfl)
      | error stop =>
          refine Or.inr ⟨stop, ?_⟩
          have hcall : (call .isOnline).run.run s = (.error stop,
              { s with exchange := { s.exchange with services.flickers := n } }) :=
            run_step_of_error id hattempt
          exact run_bind_of_error hcall _

/-- The routing leaves of frames the first ones on their way. -/
def Brings (home owner : Nat) (target : String) (session : Session) (frames : List Bytes)
    (x y : Exchange) : Prop :=
  ∃ k, Exchange.Brought home owner target session (frames.take k) x y

theorem Brings.of_same {x y z : Exchange} (h : Brings home owner target session frames y z)
    (hsame : y.outline = x.outline) : Brings home owner target session frames x z := by
  obtain ⟨k, hk⟩ := h
  exact ⟨k, hk.of_same hsame⟩

theorem brings_nothing {x y : Exchange} (h : y.outline = x.outline) :
    Brings home owner target session frames x y :=
  ⟨0, by rw [List.take_zero]; exact Exchange.brought_nil h⟩

/-- What sends nothing leaves everything where it waits. -/
theorem idles_outline : Idles fun x y => y.outline = x.outline where
  refl _ := rfl
  trans h h' := h'.trans h
  attempt _ _ := rfl
  fresh _ := rfl
  count x shard f := by
    refine Exchange.outline_mapShard_of_same ?_ x shard
    exact fun _ => rfl
  assemble x shard assembler := by
    refine Exchange.outline_mapShard_of_same ?_ x shard
    exact fun _ => rfl
  persist _ _ := rfl
  ask _ _ := rfl

theorem brings_of_gave {s' : Errand} (h : Gave s session frames s') :
    Brings owner owner target session frames s.exchange s'.exchange := by
  have htraffic : ∀ id, s'.exchange.traffic id = s.exchange.traffic id :=
    Exchange.traffic_of_view h.view
  have hmail : s'.exchange.view.mail session
      = (s.exchange.view.mail session).map (·.accept frames) := by
    rw [h.view]
    exact if_pos rfl
  have hwaiting : ∃ k, s'.exchange.waiting session = s.exchange.waiting session ++ frames.take k := by
    rw [Exchange.waiting_of_view, Exchange.waiting_of_view, hmail]
    cases s.exchange.view.mail session with
    | none => exact ⟨0, by simp⟩
    -- as many as there is room for
    | some b => exact ⟨b.room, rfl⟩
  obtain ⟨k, hk⟩ := hwaiting
  refine ⟨k, fun id => congrArg Traffic.work (htraffic id), fun id => ?_, ?_⟩
  · rw [if_neg fun h => h.2 rfl, List.append_nil, htraffic]
  · rw [if_pos rfl]
    exact hk

theorem brings_of_handed {y : Exchange} (hne : home ≠ owner) {k : Nat}
    (h : Exchange.Handed owner target (frames.take k) x y) :
    Brings home owner target session frames x y := by
  refine ⟨k, h.work, fun id => ?_, ?_⟩
  · rw [h.forward]
    -- only the forward queue of the owner has got longer
    by_cases hid : id = owner
    · rw [if_pos hid, if_pos ⟨hid, hne⟩]
    · rw [if_neg hid, if_neg fun h => hid h.1]
  · rw [if_neg hne, List.append_nil]
    exact h.waiting session

theorem keepsAt_of_keyed (hkeyed : x.ground.Keyed) (session : Session) :
    x.view.KeepsAt session := by
  intro b hb
  obtain ⟨c, hc, rfl⟩ := Option.map_eq_some_iff.1 hb
  show c.session = session
  exact Exchange.session_eq hkeyed hc

/-- A connection on the shard takes the first of the frames. -/
theorem leaves_write (hkeyed : s.exchange.ground.Keyed) :
    Leaves (write owner session frames) s (Brings owner owner target session frames s.exchange) :=
  (ends_write owner (keepsAt_of_keyed hkeyed session) frames).leaves fun _ hs' => brings_of_gave hs'

/-- A target that is online is looked for, and gets the first of the frames. -/
theorem leaves_online (hkeyed : s.exchange.ground.Keyed)
    (hfixed : s.exchange.Fixed home owner target session) :
    Leaves (do
        match (← exchange).whereabouts home target with
        | .here session => deliverHere home session target frames
        | .elsewhere owner => forward owner target frames
        | .nowhere => store home e target) s
      (Brings home owner target session frames s.exchange) := by
  refine Leaves.exchange_bind ?_
  by_cases hhome : home = owner
  · subst hhome
    rw [Exchange.whereabouts_of_holder? hfixed.held]
    cases frames with
    | nil => exact brings_nothing rfl
    | cons frame frames =>
        have hwrite : Leaves (write home session (frame :: frames)) s
            (Brings home home target session (frame :: frames) s.exchange) := leaves_write hkeyed
        exact (runs_published (Exchange.mute_of_off hfixed.off)
          (List.cons_ne_nil _ _)).bind_leaves hwrite
  · by_cases hreachable : s.exchange.pool.isReachable = true
    · rw [Exchange.whereabouts_of_index (hfixed.apart hhome) hreachable hfixed.index
        (Ne.symm hhome)]
      show Leaves (forward owner target frames) s _
      obtain ⟨k, -, hview, -⟩ := handed_forward owner target frames s
      exact brings_of_handed hhome (Exchange.handed_of_view hview)
    · have hwhere : s.exchange.whereabouts home target = .nowhere := by
        rw [Exchange.whereabouts, hfixed.apart hhome]
        exact if_neg hreachable
      -- the target cannot be found, and the message is kept
      rw [hwhere]
      exact brings_nothing (keeps_store idles_outline home e target)

/-- **Delivering brings the first of the frames on their way.** -/
theorem leaves_deliver (hkeyed : s.exchange.ground.Keyed)
    (hfixed : s.exchange.Fixed home owner target session) :
    Leaves (deliver home e target frames) s
      (Brings home owner target session frames s.exchange) := by
  obtain ⟨n, hrun⟩ := run_isOnline target s
  -- the call of the service changes nothing of what follows
  have hfixed' : Exchange.Fixed home owner target session
      { s.exchange with services.flickers := n } :=
    ⟨hfixed.off, hfixed.held, hfixed.apart, hfixed.index, hfixed.limits⟩
  rcases hrun with hruns | ⟨stop, hrun⟩
  · refine hruns.bind_leaves ?_
    split
    · show Brings home owner target session frames s.exchange _
      refine Brings.of_same (y := { s.exchange with services.flickers := n }) ?_ rfl
      exact leaves_online (s := { s with exchange := { s.exchange with services.flickers := n } })
        hkeyed hfixed'
    · exact brings_nothing (keeps_store idles_outline home e target)
  · exact Leaves.bind (fun a s' h => by rw [hrun] at h; cases h)
      fun stop s' h => by rw [hrun] at h; cases h; exact brings_nothing rfl

end Routing

namespace Exchange

variable {home owner : Nat} {target : String} {session : Session} {e : Envelope} {raw : Bytes}
  {x y : Exchange} {frames : List Bytes}

open Routing

/-- What holds when a task was routed, whatever shards have counted. -/
theorem routeTask_of_leaves {shard : Nat} {task : Task} {P : Exchange → Prop}
    (h : Leaves (route shard task) { exchange := x, copy := .unresolved } P)
    (hcount : ∀ y, P y → P (y.mapCounters shard fun c => { c with faults := c.faults + 1 })) :
    P (x.routeTask shard task) := by
  rw [Leaves] at h
  rw [routeTask]
  split
  · rename_i hrun
    rw [hrun] at h
    exact hcount _ h
  · rename_i hrun
    rw [hrun] at h
    exact h

theorem brought_mapCounters (h : Brings home owner target session frames x y) (shard : Nat)
    (f : Counters → Counters) :
    Brings home owner target session frames x (y.mapCounters shard f) := by
  obtain ⟨k, hk⟩ := h
  refine ⟨k, fun id => ?_, fun id => ?_, hk.waiting⟩
  · rw [traffic_mapCounters]
    exact hk.work id
  · rw [traffic_mapCounters]
    exact hk.forward id

theorem brings_routeTask {task : Task}
    (h : Leaves (route home task) { exchange := x, copy := .unresolved }
      (Brings home owner target session frames x)) :
    Brings home owner target session frames x (x.routeTask home task) :=
  routeTask_of_leaves h fun _ hy => brought_mapCounters hy home _

theorem route_inbound (hrecipient : e.recipient ≠ "") (hkind : e.deliveryKind = .direct)
    (shard : Nat) (raw : Bytes) :
    route shard { envelope := e, raw, origin := .inbound } = routeDirect shard e raw := by
  rw [route]
  simp only [show e.isNotice = false from beq_eq_false_iff_ne.2 hrecipient, Bool.false_eq_true,
    if_false, hkind]

/-- **A direct message is brought on its way in its frames.** -/
theorem brings_inbound (hkeyed : x.ground.Keyed) (hfixed : x.Fixed home owner target session)
    (hshard : (x.shard? home).isSome) (hrecipient : e.recipient = target) (htarget : target ≠ "")
    (hkind : e.deliveryKind = .direct) (raw : Bytes) :
    ∃ frames, e.MadeInto x.config.fragment.limits raw frames ∧
      Brings home owner target session frames x
        (x.routeTask home { envelope := e, raw, origin := .inbound }) := by
  subst hrecipient
  obtain ⟨t, ht⟩ := Option.isSome_iff_exists.1 hshard
  have hlimits := hfixed.limits t ht
  have hroute := route_inbound htarget hkind home raw
  by_cases hperson : x.services.isAssistant e.recipient = true
  · -- a prompt goes to the assistant, and no frame to anybody
    refine ⟨[], Or.inl rfl, brings_routeTask ?_⟩
    rw [hroute]
    refine Leaves.exchange_bind ?_
    rw [if_pos hperson]
    exact brings_nothing (keeps_routeToAssistant idles_outline.toRests home e)
  -- the frames are made first, and there are none if they would be too many
  have hmade := run_outboundFrames (s := { exchange := x, copy := .unresolved }) ht e raw
  rw [hlimits] at hmade
  cases hframed : e.framed x.config.fragment.limits (formatId x.issued) x.timestamp raw with
  | error fault =>
      refine ⟨[], Or.inl rfl, brings_routeTask ?_⟩
      rw [hframed] at hmade
      rw [hroute]
      refine Leaves.exchange_bind ?_
      rw [if_neg hperson]
      refine Leaves.bind (fun a s' h => ?_) fun stop s' h => ?_
      · rw [hmade] at h
        cases h
      · rw [hmade] at h
        cases h
        exact brings_nothing rfl
  | ok frames =>
      refine ⟨frames, Or.inr ⟨_, _, hframed⟩, brings_routeTask ?_⟩
      rw [hframed] at hmade
      rw [hroute]
      refine Leaves.exchange_bind ?_
      rw [if_neg hperson]
      refine Runs.bind_leaves hmade ?_
      have hfixed' : Fixed home owner e.recipient session
          { x with issued := e.drawn x.config.fragment.limits x.issued } :=
        ⟨hfixed.off, hfixed.held, hfixed.apart, hfixed.index, hfixed.limits⟩
      show Brings home owner e.recipient session frames x _
      refine Brings.of_same
        (y := { x with issued := e.drawn x.config.fragment.limits x.issued }) ?_ rfl
      exact leaves_deliver (s := { exchange := { x with
        issued := e.drawn x.config.fragment.limits x.issued }, copy := .unresolved }) hkeyed hfixed'

/-- A frame that was handed over is brought to the connection it is for. -/
theorem brings_forwarded (hkeyed : x.ground.Keyed) (hfixed : x.Fixed home owner target session)
    (e : Envelope) (raw : Bytes) : Brings owner owner target session [raw] x
      (x.routeTask owner { envelope := e, raw, origin := .forwarded target }) := by
  refine brings_routeTask ?_
  refine Leaves.exchange_bind ?_
  rw [show x.holder? owner target = some session from hfixed.held]
  exact leaves_write hkeyed

end Exchange

end Switchboard
