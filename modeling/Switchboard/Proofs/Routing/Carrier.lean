import Switchboard.Proofs.Routing.Broker

/-!
# One fragment after another

The fragments of a message come in one by one, and each is routed while those before it may still be
on their way. To those who are connected they go from shard to shard, or they are published and the
consumer writes them; either way what was sent so far is of no account to the next fragment, and
what is done elsewhere is none to the shard where the fragments come in. A `Carrier` collects what
has to be known of the way they go, and there is one for both ways (`carrier_of_relayed`,
`carrier_of_aired`).
-/

namespace Switchboard

namespace Lane

/-- More frames have arrived. -/
def arrive (l : Lane) (handovers : List Handover) : Lane :=
  { l with arrived := l.arrived ++ handovers }

/-- More frames were handed over. -/
def handOn (l : Lane) (handovers : List Handover) : Lane :=
  { l with handed := l.handed ++ handovers }

variable {l : Lane}

theorem all_arrive (htodo : l.todo = 0) (handovers : List Handover) :
    (l.arrive handovers).all = l.all ++ handovers := by
  obtain ⟨hinHand, hqueued, hhanded⟩ := idle_of_todo htodo
  simp only [all, arrive, hinHand, hqueued, hhanded, List.append_nil]

theorem all_handOn (l : Lane) (handovers : List Handover) :
    (l.handOn handovers).all = l.all ++ handovers := by
  simp only [all, handOn, List.append_assoc]

end Lane

/-- An envelope goes to those that another one goes to. -/
structure Envelope.AddressedLike (f e : Envelope) : Prop where
  sender : f.sender = e.sender
  recipient : f.recipient = e.recipient
  kind : f.deliveryKind = e.deliveryKind

namespace Exchange

/-- The frames for the same targets that are due at a shard, one frame after another. -/
def dueInTurn (x : Exchange) (raws : List Bytes) (targets : List String) (id : Nat) :
    List Handover :=
  raws.flatMap fun raw => x.due [raw] targets id

section DueInTurn

variable {x : Exchange} {raws : List Bytes} {targets : List String} {id : Nat}

theorem dueInTurn_concat (x : Exchange) (raws : List Bytes) (raw : Bytes) (targets : List String)
    (id : Nat) : x.dueInTurn (raws ++ [raw]) targets id
      = x.dueInTurn raws targets id ++ x.due [raw] targets id := by
  rw [dueInTurn, List.flatMap_append, List.flatMap_singleton]
  rfl

theorem length_dueInTurn (x : Exchange) (raws : List Bytes) (targets : List String) (id : Nat) :
    (x.dueInTurn raws targets id).length
      = raws.length * targets.countP fun target => (x.holder? id target).isSome := by
  induction raws with
  | nil =>
      rw [List.length_nil, Nat.zero_mul]
      rfl
  | cons raw raws ih =>
      have hrest : (raws.flatMap fun raw => x.due [raw] targets id).length = _ := ih
      rw [dueInTurn, List.flatMap_cons, List.length_append, length_due, hrest,
        List.length_singleton, List.length_cons, Nat.one_mul, Nat.add_mul, Nat.one_mul,
        Nat.add_comm]

/-- Whoever is held at a shard is due every frame that is for it. -/
theorem filter_dueInTurn (hnodup : targets.Nodup) {identity : String} {session : Session}
    (hheld : x.holder? id identity = some session) (raws : List Bytes) :
    ((x.dueInTurn raws targets id).filter (·.target = identity)).map Handover.frame
      = if identity ∈ targets then raws else [] := by
  -- on the fragments, each of which is due on its own
  induction raws with
  | nil =>
      rw [ite_self]
      rfl
  | cons raw raws ih =>
      rw [dueInTurn, List.flatMap_cons, List.filter_append, List.map_append,
        filter_due hnodup hheld]
      refine (congrArg _ ih).trans ?_
      split
      · rfl
      · rfl

theorem takes_dueInTurn (h : ∀ raw ∈ raws, ∃ f, Envelope.decode raw = .ok f) :
    x.Takes (x.dueInTurn raws targets) := by
  intro id handover hmem
  obtain ⟨raw, hraw, hmem⟩ := List.mem_flatMap.1 hmem
  obtain ⟨-, hheld, hframe⟩ := mem_due hmem
  obtain rfl := List.mem_singleton.1 hframe
  exact ⟨hheld, h _ hraw⟩

end DueInTurn

/-! ## Time -/

section Wait

variable {x y : Exchange} {mail : Session → Option Mailbox} {sent : Nat → String → List Bytes}

theorem wait_wait (x : Exchange) (d d' : Nat) : (x.wait d).wait d' = x.wait (d + d') :=
  congrArg (fun now => { x with now }) (Nat.add_assoc x.now d d')

/-- Time passes for a pool that is at rest as well. -/
theorem Orderly.wait (hx : x.Orderly) (d : Nat) : (x.wait d).Orderly :=
  ⟨hx.well, hx.reachable, hx.limits, hx.rest, hx.noPrompt, hx.agrees, hx.owned, hx.members⟩

theorem mailed_wait {d : Nat} : (x.wait d).Mailed mail sent ↔ x.Mailed mail sent :=
  ⟨fun h => ⟨h.held, h.others⟩, fun h => ⟨h.held, h.others⟩⟩

theorem Consigned.wait {due : Nat → List Handover} {offline : OfflineStore} {issued : Nat}
    {lanes : Nat → Lane} (hv : x.Consigned due offline issued lanes y.view) (d : Nat) :
    (x.wait d).Consigned due offline issued lanes (y.wait d).view :=
  ⟨congrArg (·.wait d) hv.bare, hv.offline, hv.issued, mailed_wait.2 hv.mail, hv.perm, hv.order,
    hv.room⟩

/-- A message for one person or for a group with members, in a pool at rest. -/
structure Sendable (x : Exchange) (e : Envelope) : Prop where
  orderly : x.Orderly
  recipient : e.recipient ≠ ""
  person : e.deliveryKind = .direct → x.services.isAssistant e.recipient = false
  targets : x.targets e ≠ []

theorem Sendable.wait {e : Envelope} (hx : x.Sendable e) (d : Nat) : (x.wait d).Sendable e :=
  ⟨hx.orderly.wait d, hx.recipient, hx.person, hx.targets⟩

end Wait

end Exchange

/-! ## Routing a fragment -/

namespace Routing

/-- A fragment goes out as it came in. -/
theorem runs_outboundFrames_of_fragment {s : Errand} {e : Envelope} (shard : Nat)
    (hfragment : e.isFragment = true) (raw : Bytes) :
    Runs (outboundFrames shard e raw) s [raw] s := by
  refine Runs.exchange_bind ?_
  cases s.exchange.shard? shard with
  | none => rfl
  | some t =>
      dsimp only
      rw [hfragment]
      rfl

end Routing

namespace Exchange

section Route

open Routing

variable {x y : Exchange} {before : Afoot} {shard : Nat} {e f : Envelope} {raw : Bytes}

theorem targets_of_like (hgroups : y.services.groups = x.services.groups)
    (hlike : f.AddressedLike e) : y.targets f = x.targets e := by
  rw [targets, targets, hgroups, hlike.sender, hlike.recipient, hlike.kind]

/-- Whoever can be sent a message can be sent its fragments. -/
theorem Sendable.like (hx : x.Sendable e) (hlike : f.AddressedLike e) : x.Sendable f where
  orderly := hx.orderly
  recipient := by
    rw [hlike.recipient]
    exact hx.recipient
  person hkind := by
    rw [hlike.recipient]
    exact hx.person (hlike.kind.symm.trans hkind)
  targets := by
    rw [targets_of_like rfl hlike]
    exact hx.targets

theorem Sendable.not_nobody (hx : x.Sendable e) : ¬ x.IsForNobody e := by
  rintro ⟨hkind, hnil⟩
  have htargets := hx.targets
  rw [Exchange.targets, hkind, hnil] at htargets
  exact htargets rfl

/-- What is on its way, of which some frames have been sent. -/
def afoot (x : Exchange) (sent : Nat → String → List Bytes) : Afoot :=
  { traffic := x.view.traffic, sent, joined := x.assembler? }

variable (hx : x.Sendable e) (hlike : f.AddressedLike e) (hfragment : f.isFragment = true)
  (htraffic : y.view.traffic = before.traffic) (hmail : x.Mailed y.mail before.sent)
  (hjoined : y.assembler? = before.joined)

include hx hlike hfragment htraffic hmail hjoined

/-- **A fragment that is not published is dispatched to those it is for**, whatever is on its way
already. -/
theorem ends_route_of_unpublished (hbare : y.bare = x.bare)
    (hquiet : x.Mute ∨ e.deliveryKind = .direct ∧ x.holder? shard e.recipient = none)
    (hroom : ∀ id, id ≠ shard → x.due [raw] (x.targets e) id ≠ [] →
      ({ x.view with traffic := before.traffic } : View).CanForward id
        (x.due [raw] (x.targets e) id).length) :
    Ends (route shard (inbound f raw)) { exchange := y, copy := .unresolved }
      (x.Dispatched before shard f [raw] (y.stock shard) (x.targets e)) := by
  have hnothing : x.Dispatched before shard f [raw] (y.stock shard) []
      { exchange := y, copy := .unresolved } :=
    dispatched_nothing hbare htraffic hmail hjoined shard f [raw] y.issued
  have hf := hx.like hlike
  rw [← targets_of_like rfl hlike] at hroom ⊢
  rw [← hlike.kind, ← hlike.recipient] at hquiet
  exact ends_route_of_made hx.orderly hbare hf.recipient hf.person hf.not_nobody
    (runs_outboundFrames_of_fragment shard hfragment raw) (List.cons_ne_nil raw []) hquiet hroom
    hnothing

/-- **A fragment for a group that is published** waits for the consumer, and is kept for those who
are away. -/
theorem ends_route_of_heard (hkind : e.deliveryKind = .group) {b : Broker} {subscriber : Nat}
    {waiting : List BrokerEvent} (hbare : y.bare = (x.withBroker b).bare)
    (hb : b.Awaits subscriber waiting) (hroom : waiting.length < b.capacity) :
    ∃ b', b'.Awaits subscriber (waiting ++ [e.event raw]) ∧ b'.capacity = b.capacity ∧
      Ends (route shard (inbound f raw)) { exchange := y, copy := .unresolved }
        ((x.withBroker b').Dispatched before shard f [] (y.stock shard) (x.targets e)) := by
  have hmade := runs_outboundFrames_of_fragment (s := { exchange := y, copy := .unresolved }) shard
    hfragment raw
  have hf := hx.like hlike
  have hgroup : f.deliveryKind = .group := hlike.kind.trans hkind
  have hgroups : y.services.groups = (x.withBroker b).services.groups := groups_of_bare hbare
  have hsame : y.targets f = x.targets e := targets_of_like hgroups hlike
  have hpublishing : y.services.publishing = .broker b := publishing_of_bare hbare
  -- a group with nobody in it is not published to
  have hmembers : y.services.groups.membersOf f.recipient ≠ [] := by
    rw [hgroups]
    exact fun hnil => hf.not_nobody ⟨hgroup, hnil⟩
  have hevents : [raw].map (BrokerEvent.group f.recipient f.sender) = [e.event raw] := by
    rw [hlike.recipient, hlike.sender]
    exact (e.map_event_of_group hkind [raw]).symm
  obtain ⟨b', hb', hcapacity, hruns⟩ := runs_published_of_awaits
    (s := { exchange := y, copy := .unresolved }) hpublishing hb [e.event raw] hroom
  refine ⟨b', hb', hcapacity, ?_⟩
  have hwell := (outages_of_bare hbare).trans hx.orderly.well
  have hroute := route_group hwell hf.recipient hgroup hmembers shard raw
  refine Ends.congr ?_ (hroute.trans (hmade.run_bind _))
  rw [hevents]
  refine Runs.bind_ends hruns ?_
  have hbare' : (y.withBroker b').bare = (x.withBroker b').bare :=
    congrArg (·.withBroker b') hbare
  have hnothing : (x.withBroker b').Dispatched before shard f [] (y.stock shard) []
      { exchange := y.withBroker b', copy := .unresolved } :=
    dispatched_nothing (y := y.withBroker b') hbare' htraffic (mailed_withBroker.2 hmail) hjoined
      shard f [] y.issued
  obtain ⟨s, hrun, hs⟩ := runs_settle (hx.orderly.withBroker b') hnothing (x.targets e)
  rw [← hsame] at hrun
  exact .of_runs hrun hs

end Route

/-! ## Carriers -/

/-- What has to be known of the way that the fragments of a message go to those who are connected,
when up to `n` of them are routed at a shard. `T raws` says that so far these were sent that way.
What is done at the shard itself is left open. -/
structure Carrier (x : Exchange) (shard : Nat) (e : Envelope) (n : Nat)
    (T : List Bytes → Exchange → Prop) : Prop where
  start : T [] x
  /-- Neither what waits at the shard nor what it keeps and joins matters. -/
  congr : ∀ {raws : List Bytes} {y z : Exchange}, T raws y → z.bare = y.bare → z.mail = y.mail →
    (∀ id, id ≠ shard → z.view.traffic id = y.view.traffic id) → T raws z
  wait : ∀ {raws : List Bytes} {y : Exchange}, T raws y → ∀ d, T raws (y.wait d)
  shard? : ∀ {raws : List Bytes} {y : Exchange}, T raws y →
    y.bare.shard? shard = x.bare.shard? shard
  /-- One more fragment is sent the same way, and kept for those who are away. -/
  route : ∀ {raws : List Bytes} {raw : Bytes} {f : Envelope} {y : Exchange}, T raws y →
    raws.length < n → f.AddressedLike e → f.isFragment = true → Envelope.decode raw = .ok f →
    Routing.Ends (Routing.route shard (inbound f raw)) { exchange := y, copy := .unresolved }
      fun s => T (raws ++ [raw]) s.exchange ∧
        s.exchange.view.traffic shard = y.view.traffic shard ∧
        s.stock shard = (y.stock shard).keepAll y.now f (x.absent (x.targets e))
  act : ∀ {raws : List Bytes} {y : Exchange} {action : Action}, T raws y →
    action.serves = true → action.place? ≠ some shard →
    T raws (y.act action) ∧ (y.act action).view.traffic shard = y.view.traffic shard ∧
      (y.act action).stock shard = y.stock shard
  /-- All others can come to rest. -/
  settles : ∀ {raws : List Bytes} {y : Exchange}, T raws y → ∃ more : List Action,
    (∀ action ∈ more, action.serves = true ∧ action.place? ≠ some shard) ∧
    (∀ id, id ≠ shard → (y.run more).view.traffic id = {}) ∧ (y.run more).consuming = []
  /-- Then everybody who is connected was sent what is for them, and nobody anything else. -/
  arrived : ∀ {raws : List Bytes} {y : Exchange}, T raws y → y.Settled →
    ∃ sent : Nat → String → List Bytes, x.Mailed y.mail sent ∧
      ∀ id identity session, x.holder? id identity = some session →
        (sent id identity).Perm (if identity ∈ x.targets e then raws else [])

/-! ### From shard to shard -/

/-- Fragments were handed on to the shards of those they are for, and have come as far as the lanes
say; those for the shard where they came in have arrived. -/
structure Relayed (x : Exchange) (shard : Nat) (targets : List String) (raws : List Bytes)
    (lanes : Nat → Lane) (y : Exchange) : Prop where
  decode : ∀ raw ∈ raws, ∃ f, Envelope.decode raw = .ok f
  consigned : x.Consigned (x.dueInTurn raws targets) y.services.offline y.issued lanes y.view
  traffic : ∀ id, id ≠ shard → y.view.traffic id = (lanes id).traffic
  own : (lanes shard).todo = 0

/-- The lanes after one more frame was dispatched at a shard. -/
def lanesAfter (x : Exchange) (lanes : Nat → Lane) (shard : Nat) (raw : Bytes)
    (targets : List String) : Nat → Lane :=
  fun id =>
    if id = shard then (lanes id).arrive (x.due [raw] targets id)
    else (lanes id).handOn (x.due [raw] targets id)

section Relayed

variable {x y z : Exchange} {shard : Nat} {e f : Envelope} {raw : Bytes} {raws frames : List Bytes}
  {targets : List String} {lanes : Nat → Lane} {s : Errand} {k : Stock}

theorem relayed_nothing (hx : x.Orderly) (shard : Nat) (targets : List String) :
    x.Relayed shard targets [] (fun _ => {}) x where
  decode _ hmem := absurd hmem List.not_mem_nil
  consigned :=
    { bare := rfl, offline := rfl, issued := rfl, mail := mailed_nothing x
      perm := fun _ => List.Perm.refl _
      order := fun _ _ => ⟨Nat.zero_le _, rfl⟩
      room := fun _ hne => absurd rfl hne }
  traffic id _ := hx.rest id
  own := rfl

theorem Relayed.congr (h : x.Relayed shard targets raws lanes y) (hbare : z.bare = y.bare)
    (hmail : z.mail = y.mail)
    (htraffic : ∀ id, id ≠ shard → z.view.traffic id = y.view.traffic id) :
    x.Relayed shard targets raws lanes z where
  decode := h.decode
  consigned :=
    { bare := hbare.trans h.consigned.bare, offline := rfl, issued := rfl
      mail := by
        have hsame : z.view.mail = y.view.mail := hmail
        rw [hsame]
        exact h.consigned.mail
      perm := h.consigned.perm, order := h.consigned.order, room := h.consigned.room }
  traffic id hid := (htraffic id hid).trans (h.traffic id hid)
  own := h.own

theorem Relayed.wait (h : x.Relayed shard targets raws lanes y) (d : Nat) :
    (x.wait d).Relayed shard targets raws lanes (y.wait d) :=
  ⟨h.decode, h.consigned.wait d, h.traffic, h.own⟩

theorem received_lanesAfter (x : Exchange) (lanes : Nat → Lane) (shard : Nat) (raw : Bytes)
    (targets : List String) (id : Nat) (identity : String) :
    (x.lanesAfter lanes shard raw targets id).received identity = (lanes id).received identity
      ++ (x.lanesFrom shard [raw] targets id).received identity := by
  rw [lanesAfter, lanesFrom]
  split
  · simp only [Lane.received, Lane.arrive, List.filter_append, List.map_append]
  · exact (List.append_nil _).symm

theorem all_lanesAfter (htodo : (lanes shard).todo = 0) (raw : Bytes) (targets : List String)
    (id : Nat) : (x.lanesAfter lanes shard raw targets id).all
      = (lanes id).all ++ x.due [raw] targets id := by
  rw [lanesAfter]
  split
  · next hid => exact Lane.all_arrive (hid ▸ htodo) _
  · exact Lane.all_handOn _ _

theorem inHand_lanesAfter (x : Exchange) (lanes : Nat → Lane) (shard : Nat) (raw : Bytes)
    (targets : List String) (id : Nat) :
    (x.lanesAfter lanes shard raw targets id).inHand = (lanes id).inHand := by
  rw [lanesAfter]
  split
  · rfl
  · rfl

/-- Where there is room for all frames, there is room for another one of them, and for those that
are on their way with it. -/
theorem room_of_frames (h : x.Relayed shard targets raws lanes y)
    (hless : raws.length < frames.length) (raw : Bytes) (id : Nat) :
    (x.due frames targets id).length
        ≥ (x.dueInTurn raws targets id).length + (x.due [raw] targets id).length ∧
      (lanes id).handed.length ≤ (x.dueInTurn raws targets id).length := by
  refine ⟨?_, ?_⟩
  · rw [length_due, length_due, length_dueInTurn, ← Nat.add_mul, List.length_singleton]
    exact Nat.mul_le_mul_right _ hless
  · rw [← (h.consigned.perm id).length_eq, Lane.all, List.length_append]
    exact Nat.le_add_left ..

theorem Relayed.canForward (hx : x.Orderly) (hroom : x.HasRoom shard (x.due frames targets))
    (h : x.Relayed shard targets raws lanes y) (hless : raws.length < frames.length) (raw : Bytes)
    {id : Nat} (hid : id ≠ shard) (hdue : x.due [raw] targets id ≠ []) :
    ({ x.view with traffic := y.view.traffic } : View).CanForward id
      (x.due [raw] targets id).length := by
  obtain ⟨hframes, hhanded⟩ := room_of_frames h hless raw id
  have hpos := List.length_pos_iff.2 hdue
  obtain ⟨t, ht, hlistening, hfits⟩ :=
    hroom.forward id hid (List.ne_nil_of_length_pos (by omega))
  refine ⟨t, ht, hlistening, ?_⟩
  -- nothing waited there at first, so what waits now was handed on of this message
  have hidle : (x.view.traffic id).forward = [] := congrArg Traffic.forward (hx.rest id)
  have htraffic : (y.view.traffic id).forward = (lanes id).handed :=
    congrArg Traffic.forward (h.traffic id hid)
  rw [hidle] at hfits
  show (y.view.traffic id).forward.length + _ ≤ _
  rw [htraffic]
  simp only [List.length_nil] at hfits
  omega

/-- One more frame that was dispatched is on its way with the others. -/
theorem relayed_of_dispatched (hroom : x.HasRoom shard (x.due frames targets))
    (h : x.Relayed shard targets raws lanes y) (hless : raws.length < frames.length)
    (hdecode : ∃ f, Envelope.decode raw = .ok f)
    (hs : x.Dispatched (y.afoot fun id => (lanes id).received) shard f [raw] k targets s) :
    x.Relayed shard targets (raws ++ [raw]) (x.lanesAfter lanes shard raw targets) s.exchange where
  decode := by
    intro raw' hmem
    rcases List.mem_append.1 hmem with hmem | hmem
    · exact h.decode raw' hmem
    · rwa [List.mem_singleton.1 hmem]
  consigned :=
    { bare := hs.bare, offline := rfl, issued := rfl
      mail := hs.mail.congr fun id identity _ => received_lanesAfter ..
      perm := by
        intro id
        rw [all_lanesAfter h.own, dueInTurn_concat]
        exact (h.consigned.perm id).append_right _
      order := by
        intro hone id
        obtain ⟨hsingle, hall⟩ := h.consigned.order hone id
        rw [inHand_lanesAfter, all_lanesAfter h.own, dueInTurn_concat, hall]
        exact ⟨hsingle, rfl⟩
      room := by
        intro id hhanded
        -- what is for the shard itself is sent at once and not handed on
        have hid : id ≠ shard := by
          rintro rfl
          refine hhanded ?_
          rw [lanesAfter, if_pos rfl]
          exact (Lane.idle_of_todo h.own).2.2
        obtain ⟨hframes, hless'⟩ := room_of_frames h hless raw id
        have hpos := List.length_pos_iff.2 hhanded
        rw [lanesAfter, if_neg hid, Lane.handOn, List.length_append] at hpos
        refine (hroom.work id hid (List.ne_nil_of_length_pos (by omega))).mono ?_
        rw [dueInTurn_concat, List.length_append]
        exact hframes }
  traffic id hid := by
    rw [hs.traffic, handed_lanesFrom, if_neg hid, lanesAfter, if_neg hid]
    exact congrArg (Traffic.handOn · _) (h.traffic id hid)
  own := by
    rw [lanesAfter, if_pos rfl]
    exact h.own

theorem Relayed.takes (h : x.Relayed shard targets raws lanes y) :
    x.Takes (x.dueInTurn raws targets) := takes_dueInTurn h.decode

/-- **Whatever is done elsewhere, the frames come on**, and it is nothing to the shard. -/
theorem relayed_act (hx : x.Orderly) (hcaught : x.CaughtUp)
    (h : x.Relayed shard targets raws lanes y) {action : Action} (haction : action.serves = true)
    (helsewhere : action.place? ≠ some shard) :
    (∃ lanes', x.Relayed shard targets raws lanes' (y.act action)) ∧
      (y.act action).view.traffic shard = y.view.traffic shard ∧
      (y.act action).stock shard = y.stock shard := by
  have hsame : y.act action = y → (∃ lanes', x.Relayed shard targets raws lanes' (y.act action)) ∧
      (y.act action).view.traffic shard = y.view.traffic shard ∧
      (y.act action).stock shard = y.stock shard := by
    intro hact
    rw [hact]
    exact ⟨⟨lanes, h⟩, rfl, rfl⟩
  -- a step at another shard moves the frames on its own lane, and no others
  have hplaced : ∀ id, action.place? = some id →
      (∃ lanes', x.Relayed shard targets raws lanes' (y.act action)) ∧
        (y.act action).view.traffic shard = y.view.traffic shard ∧
        (y.act action).stock shard = y.stock shard := by
    intro id hplace
    have hid : id ≠ shard := fun heq => helsewhere (hplace.trans (congrArg some heq))
    obtain ⟨l, hl⟩ := advanced_act h.consigned (h.traffic id hid) hx h.takes hplace
    have hoffline : (y.act action).services.offline = y.services.offline := hl.consigned.offline
    have hissued : (y.act action).issued = y.issued := hl.consigned.issued
    refine ⟨⟨Function.update lanes id l, h.decode, ?_, fun id' hid' => ?_, ?_⟩, ?_, ?_⟩
    · rw [hoffline, hissued]
      exact hl.consigned
    · rw [hl.traffic]
      by_cases heq : id' = id
      · rw [if_pos heq, heq, Function.update_self]
      · rw [if_neg heq, Function.update_of_ne heq]
        exact h.traffic id' hid'
    · rw [Function.update_of_ne (Ne.symm hid)]
      exact h.own
    · rw [hl.traffic, if_neg (Ne.symm hid)]
    · rw [stock, stock, Errand.stock, Errand.stock, hoffline, hissued, hl.joined]
  have hbare : y.bare = x.bare := h.consigned.bare
  cases action, haction using Action.serves_cases with
  | take id => exact hplaced id rfl
  | finish id slot => exact hplaced id rfl
  | relay id => exact hplaced id rfl
  | answer => exact hsame (answer_of_nil ((prompts_of_bare hbare).trans hx.noPrompt))
  -- the consumer has read everything, and nothing was published since
  | consume => exact hsame (consume_of_caughtUp (caughtUp_of_bare hbare hcaught))

/-- When nothing is on its way any more, everybody was sent what is for them. -/
theorem Relayed.arrived (hnodup : targets.Nodup) (h : x.Relayed shard targets raws lanes y)
    (hrest : y.AtRest) {id : Nat} {identity : String} {session : Session}
    (hheld : x.holder? id identity = some session) :
    ((lanes id).received identity).Perm (if identity ∈ targets then raws else []) := by
  -- the shard of origin never had anything to do, the others have finished
  have htodo : (lanes id).todo = 0 := by
    by_cases hid : id = shard
    · exact hid ▸ h.own
    · exact Lane.todo_of_traffic ((h.traffic id hid).symm.trans (hrest id))
  have hperm := h.consigned.perm id
  rw [Lane.all_of_todo htodo] at hperm
  rw [← filter_dueInTurn hnodup hheld raws]
  exact (hperm.filter _).map _

/-- Nothing is published of a message in so many frames, and there is room to hand them on. -/
structure HandsOn (x : Exchange) (shard : Nat) (e : Envelope) (frames : List Bytes) : Prop
    extends x.Sendable e where
  caughtUp : x.CaughtUp
  quiet : x.Mute ∨ e.deliveryKind = .direct ∧ x.holder? shard e.recipient = none
  room : x.HasRoom shard (x.due frames (x.targets e))

theorem HandsOn.wait (hx : x.HandsOn shard e frames) (d : Nat) :
    (x.wait d).HandsOn shard e frames :=
  ⟨hx.toSendable.wait d, hx.caughtUp, hx.quiet.imp_left (mute_of_publishing (x := x) rfl),
    hx.room.own, hx.room.work, hx.room.forward⟩

/-- One more fragment is handed on. -/
theorem Relayed.route (hx : x.HandsOn shard e frames)
    (h : x.Relayed shard (x.targets e) raws lanes y) (hless : raws.length < frames.length)
    (hlike : f.AddressedLike e) (hfragment : f.isFragment = true)
    (hdecode : Envelope.decode raw = .ok f) :
    Routing.Ends (Routing.route shard (inbound f raw)) { exchange := y, copy := .unresolved }
      fun s => (∃ lanes', x.Relayed shard (x.targets e) (raws ++ [raw]) lanes' s.exchange) ∧
        s.exchange.view.traffic shard = y.view.traffic shard ∧
        s.stock shard = (y.stock shard).keepAll y.now f (x.absent (x.targets e)) := by
  have hends : Routing.Ends (Routing.route shard (inbound f raw))
      { exchange := y, copy := .unresolved }
      (x.Dispatched (y.afoot fun id => (lanes id).received) shard f [raw] (y.stock shard)
        (x.targets e)) :=
    ends_route_of_unpublished hx.toSendable hlike hfragment rfl h.consigned.mail rfl
      h.consigned.bare hx.quiet
      fun id hid hdue => h.canForward hx.orderly hx.room hless raw hid hdue
  refine hends.mono fun s hs => ?_
  refine ⟨⟨_, relayed_of_dispatched hx.room h hless ⟨f, hdecode⟩ hs⟩, ?_, ?_⟩
  · rw [hs.traffic, handed_lanesFrom, if_pos rfl, Traffic.handOn, List.append_nil]
    rfl
  · rw [now_of_bare h.consigned.bare]
    exact hs.stock

/-- All frames can be brought to those they are for. -/
theorem Relayed.settles (hx : x.HandsOn shard e frames)
    (h : x.Relayed shard targets raws lanes y) : ∃ more : List Action,
      (∀ action ∈ more, action.serves = true ∧ action.place? ≠ some shard) ∧
      (∀ id, id ≠ shard → (y.run more).view.traffic id = {}) ∧ (y.run more).consuming = [] := by
  have hown : ∀ id, ¬ id ≠ shard → (lanes id).todo = 0 := by
    intro id hid
    rw [not_not.1 hid]
    exact h.own
  obtain ⟨more, hmore, hrest, hbare⟩ :=
    consigned_settles hx.orderly h.takes h.consigned h.traffic hown
  refine ⟨more, fun action hmem => ?_, hrest,
    consuming_of_caughtUp (caughtUp_of_bare hbare hx.caughtUp)⟩
  obtain ⟨hserves, id, hplace, hid⟩ := hmore action hmem
  exact ⟨hserves, fun heq => hid (Option.some.inj (hplace.symm.trans heq))⟩

/-- **Fragments that are not published go from shard to shard.** -/
theorem carrier_of_relayed (hx : x.HandsOn shard e frames) :
    x.Carrier shard e frames.length fun raws y =>
      ∃ d lanes, (x.wait d).Relayed shard (x.targets e) raws lanes y where
  start := ⟨0, _, relayed_nothing hx.orderly shard (x.targets e)⟩
  congr := by
    rintro raws y z ⟨d, lanes, h⟩ hbare hmail htraffic
    exact ⟨d, lanes, h.congr hbare hmail htraffic⟩
  wait := by
    rintro raws y ⟨d, lanes, h⟩ d'
    refine ⟨d + d', lanes, ?_⟩
    rw [← wait_wait]
    exact h.wait d'
  shard? := by
    rintro raws y ⟨d, lanes, h⟩
    have hbare : y.bare = (x.wait d).bare := h.consigned.bare
    rw [hbare]
    rfl
  route := by
    rintro raws raw f y ⟨d, lanes, h⟩ hless hlike hfragment hdecode
    refine (h.route (hx.wait d) hless hlike hfragment hdecode).mono ?_
    rintro s ⟨⟨lanes', h'⟩, hown⟩
    exact ⟨⟨d, lanes', h'⟩, hown⟩
  act := by
    rintro raws y action ⟨d, lanes, h⟩ haction helsewhere
    have hcaught : (x.wait d).CaughtUp := hx.caughtUp
    obtain ⟨⟨lanes', h'⟩, hown⟩ := relayed_act (hx.orderly.wait d) hcaught h haction helsewhere
    exact ⟨⟨d, lanes', h'⟩, hown⟩
  settles := by
    rintro raws y ⟨d, lanes, h⟩
    exact h.settles (hx.wait d)
  arrived := by
    rintro raws y ⟨d, lanes, h⟩ hsettled
    refine ⟨_, mailed_wait.1 h.consigned.mail, fun id identity session hheld => ?_⟩
    exact h.arrived (nodup_targets hx.orderly e) hsettled.1 hheld

end Relayed

/-! ### By a broker -/

/-- Fragments for a group were published: the consumer has read some of them, those they are for
were sent these, and nothing waits at other shards. -/
structure Aired (x : Exchange) (shard subscriber : Nat) (e : Envelope) (n : Nat) (b : Broker)
    (read unread : List Bytes) (y : Exchange) : Prop where
  awaits : b.Awaits subscriber (unread.map e.event)
  holds : n ≤ b.capacity
  bare : y.bare = (x.withBroker b).bare
  idle : ∀ id, id ≠ shard → y.view.traffic id = {}
  mail : x.Mailed y.mail fun _ identity => if identity ∈ x.targets e then read else []

/-- The consumer has read everything that was published, and the broker holds so many frames of a
message for a group. -/
structure Airs (x : Exchange) (subscriber : Nat) (e : Envelope) (n : Nat) (b : Broker) : Prop
    extends x.Sendable e where
  kind : e.deliveryKind = .group
  consumer : x.pool.consumer = some subscriber
  publishing : x.services.publishing = .broker b
  awaits : b.Awaits subscriber []
  holds : n ≤ b.capacity

section Aired

variable {x y z : Exchange} {shard subscriber n : Nat} {e f : Envelope} {b b₀ : Broker}
  {raw : Bytes} {raws read unread : List Bytes}

theorem Airs.wait (hx : x.Airs subscriber e n b) (d : Nat) : (x.wait d).Airs subscriber e n b :=
  ⟨hx.toSendable.wait d, hx.kind, hx.consumer, hx.publishing, hx.awaits, hx.holds⟩

theorem aired_nothing (hx : x.Airs subscriber e n b) (shard : Nat) :
    x.Aired shard subscriber e n b [] [] x where
  awaits := hx.awaits
  holds := hx.holds
  bare := by rw [withBroker, ← hx.publishing]
  idle id _ := hx.orderly.rest id
  mail := by
    simp only [ite_self]
    exact mailed_nothing x

theorem Aired.congr (h : x.Aired shard subscriber e n b read unread y) (hbare : z.bare = y.bare)
    (hmail : z.mail = y.mail)
    (htraffic : ∀ id, id ≠ shard → z.view.traffic id = y.view.traffic id) :
    x.Aired shard subscriber e n b read unread z :=
  ⟨h.awaits, h.holds, hbare.trans h.bare, fun id hid => (htraffic id hid).trans (h.idle id hid),
    hmail ▸ h.mail⟩

theorem Aired.wait (h : x.Aired shard subscriber e n b read unread y) (d : Nat) :
    (x.wait d).Aired shard subscriber e n b read unread (y.wait d) :=
  ⟨h.awaits, h.holds, congrArg (·.wait d) h.bare, h.idle, mailed_wait.2 h.mail⟩

/-- One more fragment is published. -/
theorem Aired.route (hx : x.Airs subscriber e n b₀)
    (h : x.Aired shard subscriber e n b read unread y) (hless : unread.length < n)
    (hlike : f.AddressedLike e) (hfragment : f.isFragment = true) (raw : Bytes) :
    Routing.Ends (Routing.route shard (inbound f raw)) { exchange := y, copy := .unresolved }
      fun s => (∃ b', x.Aired shard subscriber e n b' read (unread ++ [raw]) s.exchange) ∧
        s.exchange.view.traffic shard = y.view.traffic shard ∧
        s.stock shard = (y.stock shard).keepAll y.now f (x.absent (x.targets e)) := by
  have hroom : (unread.map e.event).length < b.capacity := by
    rw [List.length_map]
    exact Nat.lt_of_lt_of_le hless h.holds
  let before := y.afoot fun _ identity => if identity ∈ x.targets e then read else []
  obtain ⟨b', hb', hcapacity, hends⟩ : ∃ b' : Broker,
      b'.Awaits subscriber (unread.map e.event ++ [e.event raw]) ∧ b'.capacity = b.capacity ∧
      Routing.Ends (Routing.route shard (inbound f raw)) { exchange := y, copy := .unresolved }
        ((x.withBroker b').Dispatched before shard f [] (y.stock shard) (x.targets e)) :=
    ends_route_of_heard hx.toSendable hlike hfragment rfl h.mail rfl hx.kind h.bare h.awaits hroom
  refine hends.mono fun s hs => ?_
  have htraffic : s.exchange.view.traffic = y.view.traffic := by
    funext id
    rw [hs.traffic, handed_lanesFrom, due_nil, ite_self, Traffic.handOn, List.append_nil]
    rfl
  refine ⟨⟨b', ?_, ?_, hs.bare, fun id hid => ?_, ?_⟩, congrFun htraffic shard, ?_⟩
  · rw [List.map_append]
    exact hb'
  · rw [hcapacity]
    exact h.holds
  · rw [htraffic]
    exact h.idle id hid
  · refine (mailed_withBroker.1 hs.mail).congr fun id identity _ => ?_
    rw [lanesFrom, due_nil, ite_self]
    exact (List.append_nil _).symm
  · rw [now_of_bare h.bare]
    exact hs.stock

/-- The consumer sends the next fragment to those it is for, which is nothing to the shard. -/
theorem aired_consume (hx : x.Airs subscriber e n b₀)
    (h : x.Aired shard subscriber e n b read (raw :: unread) y) :
    (∃ b', x.Aired shard subscriber e n b' (read ++ [raw]) unread y.consume) ∧
      y.consume.view.traffic shard = y.view.traffic shard ∧
      y.consume.stock shard = y.stock shard := by
  obtain ⟨b', mail, hb', hcapacity, hview, hmail, hassembler⟩ :=
    consume_of_awaits hx.orderly hx.consumer h.awaits h.bare h.mail
  have htraffic : ∀ id, y.consume.view.traffic id = y.view.traffic id := by
    intro id
    rw [hview]
  have hoffline : y.consume.services.offline = y.services.offline := offline_of_view hview
  have hissued : y.consume.issued = y.issued := issued_of_view hview
  refine ⟨⟨b', hb', ?_, bare_of_view hview, fun id hid => ?_, ?_⟩, htraffic shard, ?_⟩
  · rw [hcapacity]
    exact h.holds
  · exact (htraffic id).trans (h.idle id hid)
  · rw [mail_of_view hview]
    refine hmail.congr fun id identity _ => ?_
    split
    · rfl
    · rfl
  · rw [stock, stock, Errand.stock, Errand.stock, hoffline, hissued, hassembler]

/-- **Whatever is done elsewhere, the consumer sends the fragments in their order.** -/
theorem aired_act (hx : x.Airs subscriber e n b₀)
    (h : x.Aired shard subscriber e n b read unread y) {action : Action}
    (haction : action.serves = true) (helsewhere : action.place? ≠ some shard) :
    (∃ b' read' unread', read' ++ unread' = read ++ unread ∧
        x.Aired shard subscriber e n b' read' unread' (y.act action)) ∧
      (y.act action).view.traffic shard = y.view.traffic shard ∧
      (y.act action).stock shard = y.stock shard := by
  have hsame : y.act action = y → (∃ b' read' unread', read' ++ unread' = read ++ unread ∧
        x.Aired shard subscriber e n b' read' unread' (y.act action)) ∧
      (y.act action).view.traffic shard = y.view.traffic shard ∧
      (y.act action).stock shard = y.stock shard := by
    intro hact
    rw [hact]
    exact ⟨⟨b, read, unread, rfl, h⟩, rfl, rfl⟩
  have hidle : ∀ id, action.place? = some id → y.view.traffic id = {} := fun id hid =>
    h.idle id fun heq => helsewhere (hid.trans (congrArg some heq))
  cases action, haction using Action.serves_cases with
  -- nothing waits at other shards, so only the consumer has something to do
  | take id => exact hsame (take_of_idle (hidle id rfl))
  | finish id slot => exact hsame (finish_of_idle (hidle id rfl) slot)
  | relay id => exact hsame (relay_of_idle (hidle id rfl))
  | answer => exact hsame (answer_of_nil ((prompts_of_bare h.bare).trans hx.orderly.noPrompt))
  | consume =>
      cases unread with
      | nil => exact hsame (consume_of_awaits_nil hx.consumer h.awaits h.bare)
      | cons raw unread =>
          obtain ⟨⟨b', h'⟩, hown⟩ := aired_consume hx h
          refine ⟨⟨b', read ++ [raw], unread, ?_, h'⟩, hown⟩
          rw [List.append_assoc, List.singleton_append]

/-- The consumer can read all fragments. -/
theorem Aired.settles (hx : x.Airs subscriber e n b₀)
    (h : x.Aired shard subscriber e n b read unread y) : ∃ more : List Action,
      (∀ action ∈ more, action.serves = true ∧ action.place? ≠ some shard) ∧
      (∀ id, id ≠ shard → (y.run more).view.traffic id = {}) ∧ (y.run more).consuming = [] := by
  -- on the fragments that the consumer has not read
  induction unread generalizing b read y with
  | nil =>
      exact ⟨[], fun _ hmem => absurd hmem List.not_mem_nil, h.idle,
        consuming_of_awaits hx.consumer h.awaits h.bare⟩
  | cons raw unread ih =>
      obtain ⟨⟨b', h'⟩, -⟩ := aired_consume hx h
      obtain ⟨more, hmore, hrest⟩ := ih h'
      refine ⟨.consume :: more, List.forall_mem_cons.2 ⟨⟨rfl, ?_⟩, hmore⟩, hrest⟩
      exact (Option.some_ne_none shard).symm

/-- When the consumer has nothing to read, it has read every fragment. -/
theorem Aired.unread_of_consuming (hx : x.Airs subscriber e n b₀)
    (h : x.Aired shard subscriber e n b read unread y) (hnothing : y.consuming = []) :
    unread = [] := by
  rw [consuming_of_awaits hx.consumer h.awaits h.bare, List.replicate_eq_nil_iff,
    List.length_map] at hnothing
  exact List.eq_nil_of_length_eq_zero hnothing

/-- **Fragments for a group that are published go by the consumer.** -/
theorem carrier_of_aired (hx : x.Airs subscriber e n b) (shard : Nat) :
    x.Carrier shard e n fun raws y => ∃ d b' read unread, read ++ unread = raws ∧
      (x.wait d).Aired shard subscriber e n b' read unread y where
  start := ⟨0, b, [], [], rfl, aired_nothing hx shard⟩
  congr := by
    rintro raws y z ⟨d, b', read, unread, hall, h⟩ hbare hmail htraffic
    exact ⟨d, b', read, unread, hall, h.congr hbare hmail htraffic⟩
  wait := by
    rintro raws y ⟨d, b', read, unread, hall, h⟩ d'
    refine ⟨d + d', b', read, unread, hall, ?_⟩
    rw [← wait_wait]
    exact h.wait d'
  shard? := by
    rintro raws y ⟨d, b', read, unread, -, h⟩
    have hbare : y.bare = ((x.wait d).withBroker b').bare := h.bare
    rw [hbare]
    rfl
  route := by
    rintro raws raw f y ⟨d, b', read, unread, rfl, h⟩ hless hlike hfragment -
    have hless' : unread.length < n := by
      rw [List.length_append] at hless
      omega
    refine (h.route (hx.wait d) hless' hlike hfragment raw).mono ?_
    rintro s ⟨⟨b'', h'⟩, hown⟩
    exact ⟨⟨d, b'', read, unread ++ [raw], (List.append_assoc ..).symm, h'⟩, hown⟩
  act := by
    rintro raws y action ⟨d, b', read, unread, rfl, h⟩ haction helsewhere
    obtain ⟨⟨b'', read', unread', hall, h'⟩, hown⟩ :=
      aired_act (hx.wait d) h haction helsewhere
    exact ⟨⟨d, b'', read', unread', hall, h'⟩, hown⟩
  settles := by
    rintro raws y ⟨d, b', read, unread, -, h⟩
    exact h.settles (hx.wait d)
  arrived := by
    rintro raws y ⟨d, b', read, unread, rfl, h⟩ hsettled
    rw [h.unread_of_consuming (hx.wait d) hsettled.2, List.append_nil]
    exact ⟨_, mailed_wait.1 h.mail, fun _ _ _ _ => List.Perm.refl _⟩

end Aired

/-! ### Either way -/

section Either

variable {x : Exchange} {shard : Nat} {e : Envelope} {frames : List Bytes}

/-- **However frames are published, there is a carrier** for the fragments of a message that
somebody is to get who is away. -/
theorem exists_carrier (hx : x.Sendable e) (haway : x.absent (x.targets e) ≠ [])
    (hroom : x.HasRoom shard (x.due frames (x.targets e)))
    (hlossless : x.Mute ∨ x.services.publishing.IsLossless frames.length x.pool.consumer) :
    ∃ T, x.Carrier shard e frames.length T := by
  have hcaught : x.CaughtUp := hlossless.elim caughtUp_of_mute (caughtUp_of_lossless (x := x))
  have hhandsOn : x.Mute ∨ e.deliveryKind = .direct ∧ x.holder? shard e.recipient = none →
      ∃ T, x.Carrier shard e frames.length T :=
    fun hquiet => ⟨_, carrier_of_relayed ⟨hx, hcaught, hquiet, hroom⟩⟩
  cases hkind : e.deliveryKind with
  | direct =>
      -- the one it is for is away
      obtain ⟨target, hmem⟩ := List.exists_mem_of_ne_nil _ haway
      obtain ⟨htarget, hnone⟩ := hx.orderly.mem_absent.1 hmem
      rw [targets, hkind, List.mem_singleton] at htarget
      exact hhandsOn (.inr ⟨hkind, htarget ▸ hnone shard⟩)
  | group =>
      rcases hlossless with hmute | hlossless
      · exact hhandsOn (.inl hmute)
      · generalize hpublishing : x.services.publishing = publishing at hlossless
        generalize hconsumer : x.pool.consumer = consumer at hlossless
        cases hlossless with
        | off => exact hhandsOn (.inl (mute_of_off hpublishing))
        | unheard nobody => exact hhandsOn (.inl (mute_of_nobody hpublishing nobody))
        | heard awaits holds =>
            exact ⟨_, carrier_of_aired ⟨hx, hkind, hconsumer, hpublishing, awaits, holds⟩ shard⟩

end Either

end Exchange

end Switchboard
