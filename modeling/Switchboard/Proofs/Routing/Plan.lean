import Switchboard.Proofs.Routing.Dispatch

/-!
# What becomes of a message

The `Plan` of a message says to whom it goes and in which frames. One for a group without members,
and one that would need too many fragments, goes to nobody. Where nothing of it is published, routing
the message at a shard dispatches it as planned (`dispatched_routeTask`), and if there is room for
the frames, they are underway from then on (`underway_of_dispatched`).
-/

namespace Switchboard

namespace Envelope

/-- Frames that are made are those of the fragments if the message is split, and else there is one,
with the octets that the message came in. -/
theorem framed_cases {limits : FragmentLimits} {fresh : String} {now : Int64} {e : Envelope}
    {raw : Bytes} {frames : List Bytes} (h : e.framed limits fresh now raw = .ok frames) :
    e.isSplit limits = true ∧ frames = ((e.completed fresh now).fragments limits).map encode ∨
      e.isSplit limits = false ∧ frames = [raw] := by
  rw [framed] at h
  split at h
  · next hcut =>
      cases hsplit : e.split limits fresh now with
      | error fault =>
          rw [hsplit] at h
          cases h
      | ok fragments =>
          rw [hsplit] at h
          obtain ⟨rfl, -⟩ := eq_fragments_of_split hsplit
          exact Or.inl ⟨hcut, (Except.ok.inj h).symm⟩
  · next hwhole => exact Or.inr ⟨Bool.eq_false_iff.2 hwhole, (Except.ok.inj h).symm⟩

/-- A message whose frames can be made has some. -/
theorem framed_ne_nil {limits : FragmentLimits} {fresh : String} {now : Int64} {e : Envelope}
    {raw : Bytes} {frames : List Bytes} (h : e.framed limits fresh now raw = .ok frames) :
    frames ≠ [] := by
  rcases framed_cases h with ⟨-, rfl⟩ | ⟨-, rfl⟩
  · exact fun hnil => fragments_ne_nil limits _ (List.map_eq_nil_iff.1 hnil)
  · exact List.cons_ne_nil raw []

/-- A frame of a message that is split is one of its fragments, and any other one is what came in. -/
theorem mem_framed {limits : FragmentLimits} {fresh : String} {now : Int64} {e : Envelope}
    {raw : Bytes} {frames : List Bytes} (h : e.framed limits fresh now raw = .ok frames)
    {frame : Bytes} (hframe : frame ∈ frames) :
    e.isSplit limits = true ∧ (∃ f ∈ (e.completed fresh now).fragments limits, f.encode = frame) ∨
      e.isSplit limits = false ∧ frame = raw := by
  rcases framed_cases h with ⟨hcut, rfl⟩ | ⟨hwhole, rfl⟩
  · exact Or.inl ⟨hcut, List.mem_map.1 hframe⟩
  · exact Or.inr ⟨hwhole, List.mem_singleton.1 hframe⟩

/-- A message itself or, if it is split, one of its fragments. -/
def IsPart (limits : FragmentLimits) (fresh : String) (now : Int64) (e part : Envelope) : Prop :=
  part = e ∨ e.isSplit limits = true ∧ part ∈ (e.completed fresh now).fragments limits

/-- A frame reads as a part of a message. -/
def IsCarriedBy (limits : FragmentLimits) (fresh : String) (now : Int64) (e : Envelope)
    (frame : Bytes) : Prop :=
  ∃ part, Envelope.decode frame = .ok part ∧ e.IsPart limits fresh now part

/-- Every frame of a message reads as a part of it. -/
theorem isCarriedBy_of_mem_framed {limits : FragmentLimits} {fresh : String} {now : Int64} {e : Envelope}
    {raw : Bytes} {frames : List Bytes} (h : e.framed limits fresh now raw = .ok frames)
    (hmeasured : (e.completed fresh now).encode.length < 256 ^ 8)
    (hdecode : Envelope.decode raw = .ok e) {frame : Bytes} (hframe : frame ∈ frames) :
    e.IsCarriedBy limits fresh now frame := by
  rcases mem_framed h hframe with ⟨hcut, f, hf, rfl⟩ | ⟨-, rfl⟩
  · exact ⟨f, decode_encode (fits_of_mem_fragments hmeasured hf), Or.inr ⟨hcut, hf⟩⟩
  · exact ⟨e, hdecode, Or.inl rfl⟩

end Envelope

/-- To whom a message goes, in which frames, and how many identities were handed out once these are
made. -/
structure Plan where
  targets : List String := []
  frames : List Bytes := []
  issued : Nat

namespace Exchange

/-- Those a message is for. A group's message is not for its sender. -/
def targets (x : Exchange) (e : Envelope) : List String :=
  match e.deliveryKind with
  | .direct => [e.recipient]
  | .group => (x.services.groups.membersOf e.recipient).filter (· ≠ e.sender)

/-- Whether a message is for a group without members. -/
def IsForNobody (x : Exchange) (e : Envelope) : Prop :=
  e.deliveryKind = .group ∧ x.services.groups.membersOf e.recipient = []

instance (x : Exchange) (e : Envelope) : Decidable (x.IsForNobody e) :=
  inferInstanceAs (Decidable (_ ∧ _))

/-- The frames of a message, or why there are none. -/
def framed (x : Exchange) (e : Envelope) (raw : Bytes) : Except FragmentFault (List Bytes) :=
  e.framed x.config.fragment.limits (formatId x.issued) x.timestamp raw

def plan (x : Exchange) (e : Envelope) (raw : Bytes) : Plan :=
  if x.IsForNobody e then { issued := x.issued }
  else
    match x.framed e raw with
    | .ok frames =>
      { targets := x.targets e, frames, issued := e.drawn x.config.fragment.limits x.issued }
    | .error _ => { issued := e.drawn x.config.fragment.limits x.issued }

/-- A message that came in as some octets is for one person or a group, and can be measured in eight
octets. -/
structure Routable (x : Exchange) (e : Envelope) (raw : Bytes) : Prop where
  decode : Envelope.decode raw = .ok e
  recipient : e.recipient ≠ ""
  person : e.deliveryKind = .direct → x.services.isAssistant e.recipient = false
  measured : (e.completed (formatId x.issued) x.timestamp).encode.length < 256 ^ 8

/-- There is room for one more task at a shard, and at every other shard for what is due there. -/
structure HasRoom (x : Exchange) (shard : Nat) (due : Nat → List Handover) : Prop where
  own : x.view.CanWork shard 1
  work : ∀ id, id ≠ shard → due id ≠ [] → x.view.CanWork id (due id).length
  forward : ∀ id, id ≠ shard → due id ≠ [] → x.view.CanForward id (due id).length

/-- The frames of a message that are to be published if it comes in at a shard: none of one for
somebody who is not on the shard. -/
def toPublish (x : Exchange) (shard : Nat) (e : Envelope) (raw : Bytes) : List Bytes :=
  if e.deliveryKind = .direct ∧ x.holder? shard e.recipient = none then [] else (x.plan e raw).frames

/-- Nothing of a message is published: there is nothing to publish, or nobody takes it. -/
def IsUnpublished (x : Exchange) (shard : Nat) (e : Envelope) (raw : Bytes) : Prop :=
  x.Mute ∨ x.toPublish shard e raw = []

/-- What keeping a message depends on at a shard, before anything is kept. -/
def stock (x : Exchange) (shard : Nat) : Stock :=
  Errand.stock { exchange := x, copy := .unresolved } shard

section Plan

variable {x : Exchange} {shard : Nat} {e : Envelope} {raw : Bytes}

/-- The frames that are due at a shard are for somebody there, and can be read. -/
theorem takes_plan (he : x.Routable e raw) :
    x.Takes (x.due (x.plan e raw).frames (x.plan e raw).targets) := by
  intro id h hmem
  obtain ⟨-, hheld, hframe⟩ := mem_due hmem
  refine ⟨hheld, ?_⟩
  rw [plan] at hframe
  split at hframe
  · -- a message for nobody has no frames
    exact absurd hframe List.not_mem_nil
  · cases hframed : x.framed e raw with
    | error fault =>
        rw [hframed] at hframe
        exact absurd hframe List.not_mem_nil
    | ok frames =>
        rw [hframed] at hframe
        obtain ⟨part, hpart, -⟩ :=
          Envelope.isCarriedBy_of_mem_framed hframed he.measured he.decode hframe
        exact ⟨part, hpart⟩

/-- Nobody is a target of a message twice. -/
theorem nodup_targets (hx : x.Orderly) (e : Envelope) : (x.targets e).Nodup := by
  rw [targets]
  cases e.deliveryKind with
  | direct => exact List.nodup_singleton e.recipient
  | group => exact (hx.members e.recipient).filter _

theorem nodup_plan (hx : x.Orderly) (e : Envelope) (raw : Bytes) :
    (x.plan e raw).targets.Nodup := by
  rw [plan]
  split
  · exact List.nodup_nil
  · cases x.framed e raw with
    | error fault => exact List.nodup_nil
    | ok frames => exact nodup_targets hx e

end Plan

section Dispatched

variable {x y : Exchange} {before : Afoot} {shard : Nat} {e : Envelope} {raw : Bytes}
  {frames : List Bytes} {k : Stock} {done targets : List String} {s : Errand} {target : String}

/-- Before any target is reached, at most identities were handed out. -/
theorem dispatched_nothing (hbare : y.bare = x.bare) (htraffic : y.view.traffic = before.traffic)
    (hmail : x.Mailed y.mail before.sent) (hjoined : y.assembler? = before.joined) (shard : Nat)
    (e : Envelope) (frames : List Bytes) (n : Nat) :
    x.Dispatched before shard e frames { y.stock shard with issued := n } []
      { exchange := { y with issued := n }, copy := .unresolved } where
  bare := hbare
  traffic id := by
    refine (congrFun htraffic id).trans ?_
    rw [handed_lanesFrom, Traffic.handOn]
    split
    · rw [List.append_nil]
    · rw [due, List.flatMap_nil, List.append_nil]
  mail := by
    refine hmail.congr fun id identity _ => ?_
    rw [lanesFrom]
    split
    · exact List.append_nil _
    · exact List.append_nil _
  stock := rfl
  others id _ := congrFun hjoined id

/-- The same in a pool at rest. -/
theorem dispatched_calm (hrest : x.AtRest) (shard : Nat) (e : Envelope) (frames : List Bytes)
    (n : Nat) : x.Dispatched x.calm shard e frames { x.stock shard with issued := n } []
      { exchange := { x with issued := n }, copy := .unresolved } := by
  have htraffic : x.view.traffic = x.calm.traffic := funext hrest
  exact dispatched_nothing rfl htraffic (mailed_nothing x) rfl shard e frames n

/-- Where there is room for all frames, there is room for those of the next target. -/
theorem canForward_of_dispatched (hroom : ∀ id, id ≠ shard → x.due frames targets id ≠ [] →
      ({ x.view with traffic := before.traffic } : View).CanForward id
        (x.due frames targets id).length)
    (hframes : frames ≠ []) (h : x.Dispatched before shard e frames k done s) {rest : List String}
    (htargets : targets = done ++ target :: rest) {owner : Nat} {session : Session}
    (hne : owner ≠ shard) (hheld : x.holder? owner target = some session) :
    s.exchange.view.CanForward owner frames.length := by
  -- what is due at the shard is due to the targets before, to this one, and to those after
  have hdue : x.due frames targets owner = x.due frames done owner
      ++ (frames.map (Handover.mk target) ++ x.due frames rest owner) := by
    rw [htargets, due_append, ← List.singleton_append, due_append, due_of_held hheld]
  have hlength : (x.due frames done owner).length + frames.length
      ≤ (x.due frames targets owner).length := by
    rw [hdue, List.length_append, List.length_append, List.length_map]
    omega
  have hpos := List.length_pos_iff.2 hframes
  have hsome : x.due frames targets owner ≠ [] := List.ne_nil_of_length_pos (by omega)
  obtain ⟨t, ht, hlistening, hfits⟩ := hroom owner hne hsome
  have hbare : s.exchange.view.bare = x.view.bare := h.bare
  refine ⟨t, by rw [hbare]; exact ht, hlistening, ?_⟩
  rw [h.traffic, handed_lanesFrom, if_neg hne, Traffic.handOn, List.length_append]
  dsimp only at hfits ⊢
  omega

/-- **A message is dispatched to all its targets, whatever becomes of any of them.** -/
theorem runs_dispatch (hx : x.Orderly) (hmute : x.Mute) (hframes : frames ≠ [])
    (hroom : ∀ id, id ≠ shard → x.due frames targets id ≠ [] →
      ({ x.view with traffic := before.traffic } : View).CanForward id
        (x.due frames targets id).length)
    (h : x.Dispatched before shard e frames k [] s) :
    ∃ s', Routing.Runs (Routing.forEach (fun target => Routing.deliver shard e target frames)
        targets) s () s' ∧ x.Dispatched before shard e frames k targets s' := by
  refine Routing.runs_forEach (I := fun done => x.Dispatched before shard e frames k done) h ?_
  intro done target rest s htargets hdone
  refine Routing.ends_deliver hx hframes (.inl hmute) hdone fun owner session hne hheld => ?_
  exact canForward_of_dispatched hroom hframes hdone htargets hne hheld

/-- What is due can be handed over to a pool at rest. -/
theorem HasRoom.forward_calm (hrest : x.AtRest) {due : Nat → List Handover}
    (h : x.HasRoom shard due) : ∀ id, id ≠ shard → due id ≠ [] →
      ({ x.view with traffic := x.calm.traffic } : View).CanForward id (due id).length := by
  have hcalm : x.calm.traffic = x.view.traffic := (funext hrest).symm
  rw [hcalm]
  exact h.forward

end Dispatched

/-! ## Whole tasks -/

section Tasks

variable {x : Exchange} {shard : Nat} {e : Envelope} {raw : Bytes}

/-- A message to one person is routed by making its frames first. -/
theorem route_direct (hrecipient : e.recipient ≠ "") (hkind : e.deliveryKind = .direct)
    (hperson : x.services.isAssistant e.recipient = false) (shard : Nat) (raw : Bytes) :
    (Routing.route shard (inbound e raw)).run.run { exchange := x, copy := .unresolved }
      = (Routing.outboundFrames shard e raw >>= fun frames =>
          Routing.deliver shard e e.recipient frames).run.run
        { exchange := x, copy := .unresolved } := by
  have hnotice : e.isNotice = false := beq_eq_false_iff_ne.2 hrecipient
  rw [Routing.route, inbound]
  simp only [hnotice, Bool.false_eq_true, if_false, hkind]
  refine (Routing.run_exchange_bind _ _).trans ?_
  simp only [hperson, Bool.false_eq_true, if_false]

/-- So is one to a group that has members. -/
theorem route_group (hwell : x.services.outages = []) (hrecipient : e.recipient ≠ "")
    (hkind : e.deliveryKind = .group)
    (hmembers : x.services.groups.membersOf e.recipient ≠ []) (shard : Nat) (raw : Bytes) :
    (Routing.route shard (inbound e raw)).run.run { exchange := x, copy := .unresolved }
      = (Routing.outboundFrames shard e raw >>= fun frames =>
          Routing.published (frames.map (.group e.recipient e.sender)) >>= fun done =>
            if done then Routing.forEach (Routing.settle shard e) (x.targets e)
            else Routing.forEach (fun target => Routing.deliver shard e target frames)
              (x.targets e)).run.run
        { exchange := x, copy := .unresolved } := by
  have hnotice : e.isNotice = false := beq_eq_false_iff_ne.2 hrecipient
  -- the members are asked for, and the service is not out
  have hcall := Routing.runs_call (s := { exchange := x, copy := .unresolved }) hwell .membersOf
  have hsome : (x.services.groups.membersOf e.recipient).isEmpty = false := by
    rw [List.isEmpty_eq_false_iff]
    exact hmembers
  rw [Routing.route, inbound, targets]
  simp only [hnotice, Bool.false_eq_true, if_false, hkind]
  refine (hcall.run_bind _).trans ((Routing.run_exchange_bind _ _).trans ?_)
  simp only [hsome, Bool.false_eq_true, if_false]

/-- A message to a group without members goes to nobody. -/
theorem routeTask_of_nobody (hx : x.Orderly) (he : x.Routable e raw) (h : x.IsForNobody e)
    (shard : Nat) : x.routeTask shard (inbound e raw) = x := by
  obtain ⟨hkind, hmembers⟩ := h
  have hnotice : e.isNotice = false := beq_eq_false_iff_ne.2 he.recipient
  have hcall := Routing.runs_call (s := { exchange := x, copy := .unresolved }) hx.well .membersOf
  have hroute : Routing.Runs (Routing.route shard (inbound e raw))
      { exchange := x, copy := .unresolved } () { exchange := x, copy := .unresolved } := by
    rw [Routing.route, inbound]
    simp only [hnotice, Bool.false_eq_true, if_false, hkind]
    refine hcall.bind (Routing.Runs.exchange_bind ?_)
    rw [hmembers]
    rfl
  exact routeTask_of_runs hroute

theorem plan_of_nobody (h : x.IsForNobody e) (raw : Bytes) :
    x.plan e raw = { issued := x.issued } := if_pos h

theorem plan_of_error (h : ¬ x.IsForNobody e) {fault : FragmentFault}
    (hframed : x.framed e raw = .error fault) :
    x.plan e raw = { issued := e.drawn x.config.fragment.limits x.issued } := by
  rw [plan, if_neg h, hframed]

theorem plan_of_framed (h : ¬ x.IsForNobody e) {frames : List Bytes}
    (hframed : x.framed e raw = .ok frames) : x.plan e raw
      = { targets := x.targets e, frames, issued := e.drawn x.config.fragment.limits x.issued } := by
  rw [plan, if_neg h, hframed]

/-- The frames of a message are made as planned. -/
theorem run_outboundFrames_framed (hx : x.Orderly) (hshard : (x.shard? shard).isSome)
    (e : Envelope) (raw : Bytes) :
    (Routing.outboundFrames shard e raw).run.run { exchange := x, copy := .unresolved }
      = (match x.framed e raw with
          | .ok frames => .ok frames
          | .error fault => .error (.fault (.fragment fault)),
        { exchange := { x with issued := e.drawn x.config.fragment.limits x.issued }
          copy := .unresolved }) := by
  obtain ⟨t, ht⟩ := Option.isSome_iff_exists.1 hshard
  rw [Routing.run_outboundFrames (s := { exchange := x, copy := .unresolved }) ht,
    hx.limits shard t ht]
  rfl

section Made

variable {y : Exchange} {before : Afoot} {frames : List Bytes} {k : Stock} {s : Errand}
  (hx : x.Orderly) (hbare : y.bare = x.bare) (hrecipient : e.recipient ≠ "")
  (hperson : e.deliveryKind = .direct → x.services.isAssistant e.recipient = false)
  (hsome : ¬ x.IsForNobody e)

include hx hbare hrecipient hperson hsome

/-- If the frames of a message cannot be made, nothing else comes of it. -/
theorem ends_route_of_unmade {P : Errand → Prop} {fault : Fault}
    (hmade : (Routing.outboundFrames shard e raw).run.run { exchange := y, copy := .unresolved }
      = (.error (.fault fault), s)) (hs : P s) :
    Routing.Ends (Routing.route shard (inbound e raw)) { exchange := y, copy := .unresolved } P := by
  cases hkind : e.deliveryKind with
  | direct =>
      have hperson' : y.services.isAssistant e.recipient = false :=
        (isAssistant_of_bare hbare _).trans (hperson hkind)
      have hroute := route_direct hrecipient hkind hperson' shard raw
      exact .of_fault (hroute.trans (Routing.run_bind_of_error hmade _)) hs
  | group =>
      have hmembers : y.services.groups.membersOf e.recipient ≠ [] := by
        rw [groups_of_bare hbare]
        exact fun hnil => hsome ⟨hkind, hnil⟩
      have hwell := (outages_of_bare hbare).trans hx.well
      have hroute := route_group hwell hrecipient hkind hmembers shard raw
      exact .of_fault (hroute.trans (Routing.run_bind_of_error hmade _)) hs

/-- **Once its frames are made, a message of which nothing is published is dispatched to all its
targets.** -/
theorem ends_route_of_made
    (hmade : Routing.Runs (Routing.outboundFrames shard e raw)
      { exchange := y, copy := .unresolved } frames s)
    (hframes : frames ≠ [])
    (hquiet : x.Mute ∨ e.deliveryKind = .direct ∧ x.holder? shard e.recipient = none)
    (hroom : ∀ id, id ≠ shard → x.due frames (x.targets e) id ≠ [] →
      ({ x.view with traffic := before.traffic } : View).CanForward id
        (x.due frames (x.targets e) id).length)
    (hnothing : x.Dispatched before shard e frames k [] s) :
    Routing.Ends (Routing.route shard (inbound e raw)) { exchange := y, copy := .unresolved }
      (x.Dispatched before shard e frames k (x.targets e)) := by
  cases hkind : e.deliveryKind with
  | direct =>
      have htargets : x.targets e = [] ++ [e.recipient] := by
        rw [targets, hkind]
        rfl
      have hperson' : y.services.isAssistant e.recipient = false :=
        (isAssistant_of_bare hbare _).trans (hperson hkind)
      have hroute := route_direct hrecipient hkind hperson' shard raw
      refine Routing.Ends.congr ?_ (hroute.trans (hmade.run_bind _))
      have hdeliver := Routing.ends_deliver hx hframes (hquiet.imp_right And.right) hnothing
        fun owner session hne hheld =>
          canForward_of_dispatched hroom hframes hnothing htargets hne hheld
      rwa [← htargets] at hdeliver
  | group =>
      -- what is for a group would be published wherever its members are, so nobody takes it
      have hmute : x.Mute :=
        hquiet.resolve_right fun h => DeliveryKind.noConfusion (hkind.symm.trans h.1)
      have hmembers : y.services.groups.membersOf e.recipient ≠ [] := by
        rw [groups_of_bare hbare]
        exact fun hnil => hsome ⟨hkind, hnil⟩
      have hwell := (outages_of_bare hbare).trans hx.well
      have hroute := route_group hwell hrecipient hkind hmembers shard raw
      refine Routing.Ends.congr ?_ (hroute.trans (hmade.run_bind _))
      -- there is something to publish, so it is not said that nothing was left to do
      have hevents : frames.map (BrokerEvent.group e.recipient e.sender) ≠ [] :=
        fun hnil => hframes (List.map_eq_nil_iff.1 hnil)
      have htargets : y.targets e = x.targets e := by
        rw [targets, targets, groups_of_bare hbare]
      rw [htargets]
      refine Routing.Runs.bind_ends
        (Routing.runs_published (mute_of_bare hnothing.bare hmute) hevents) ?_
      obtain ⟨s', hrun, hs'⟩ := runs_dispatch hx hmute hframes hroom hnothing
      exact .of_runs hrun hs'

end Made

/-- **Where nothing of a message is published, routing it dispatches it as planned.** -/
theorem dispatched_routeTask (hx : x.Orderly) (he : x.Routable e raw)
    (hshard : (x.shard? shard).isSome)
    (hunpublished : x.IsUnpublished shard e raw)
    (hroom : x.HasRoom shard (x.due (x.plan e raw).frames (x.plan e raw).targets)) :
    ∃ s, x.routeTask shard (inbound e raw) = s.exchange ∧
      x.Dispatched x.calm shard e (x.plan e raw).frames
        { x.stock shard with issued := (x.plan e raw).issued } (x.plan e raw).targets s := by
  by_cases hnobody : x.IsForNobody e
  · refine ⟨{ exchange := x, copy := .unresolved }, routeTask_of_nobody hx he hnobody shard, ?_⟩
    rw [plan_of_nobody hnobody]
    exact dispatched_calm hx.rest shard e [] x.issued
  -- `n` identities are handed out when the frames are made
  obtain ⟨n, hn⟩ : ∃ n, n = e.drawn x.config.fragment.limits x.issued := ⟨_, rfl⟩
  have hmade := run_outboundFrames_framed hx hshard e raw
  rw [← hn] at hmade
  have hnothing : ∀ frames, x.Dispatched x.calm shard e frames
      { x.stock shard with issued := n } []
      { exchange := { x with issued := n }, copy := .unresolved } :=
    fun frames => dispatched_calm hx.rest shard e frames n
  cases hframed : x.framed e raw with
  | error fault =>
      rw [hframed] at hmade
      rw [plan_of_error hnobody hframed, ← hn]
      obtain ⟨s, hs, hroute⟩ := routeTask_of_ends
        (ends_route_of_unmade hx rfl he.recipient he.person hnobody hmade (hnothing []))
      exact ⟨s, hroute, hs⟩
  | ok frames =>
      rw [hframed] at hmade
      have hplan := plan_of_framed hnobody hframed
      rw [← hn] at hplan
      have hframes : frames ≠ [] := Envelope.framed_ne_nil hframed
      have hquiet : x.Mute ∨ e.deliveryKind = .direct ∧ x.holder? shard e.recipient = none := by
        refine hunpublished.imp_right fun h => ?_
        -- then its frames would be published, and it has some
        by_contra hhere
        rw [toPublish, if_neg hhere, hplan] at h
        exact hframes h
      rw [hplan] at hroom ⊢
      obtain ⟨s, hs, hroute⟩ := routeTask_of_ends
        (ends_route_of_made hx rfl he.recipient he.person hnobody hmade hframes hquiet
          (hroom.forward_calm hx.rest) (hnothing frames))
      exact ⟨s, hroute, hs⟩

/-- **With room for its frames, a message that was dispatched is underway.** -/
theorem underway_of_dispatched {k : Stock} {frames : List Bytes} {targets : List String}
    {s : Errand} (hroom : x.HasRoom shard (x.due frames targets))
    (h : x.Dispatched x.calm shard e frames k targets s) :
    x.Underway (x.due frames targets) (k.keepAll x.now e (x.absent targets)).offline
      (k.keepAll x.now e (x.absent targets)).issued (x.lanesFrom shard frames targets)
      s.exchange.view where
  bare := h.bare
  offline := by
    have hoffline := congrArg Stock.offline h.stock
    exact hoffline
  issued := by
    have hissued := congrArg Stock.issued h.stock
    exact hissued
  traffic id := by
    rw [h.traffic, lanesFrom]
    split
    · rfl
    · rfl
  mail := h.mail
  perm id := by
    rw [lanesFrom]
    split
    · exact List.Perm.of_eq (by simp only [Lane.all, List.append_nil])
    · exact List.Perm.refl _
  order _ id := by
    rw [lanesFrom]
    split
    · exact ⟨Nat.zero_le _, by simp only [Lane.all, List.append_nil]⟩
    · exact ⟨Nat.zero_le _, rfl⟩
  room id hhanded := by
    rw [lanesFrom] at hhanded
    split at hhanded
    · -- at the shard itself the frames are written at once
      exact absurd rfl hhanded
    · next hne => exact hroom.work id hne hhanded

/-- The fragments that are being joined after a message was dispatched. -/
theorem assembler?_of_dispatched {k : Stock} {frames : List Bytes} {targets : List String}
    {before : Afoot} {s : Errand} (h : x.Dispatched before shard e frames k targets s) :
    s.exchange.assembler? = Function.update before.joined shard
      (k.keepAll x.now e (x.absent targets)).assembler := by
  funext id
  by_cases hid : id = shard
  · rw [hid, Function.update_self]
    have hassembler := congrArg Stock.assembler h.stock
    exact hassembler
  · rw [Function.update_of_ne hid]
    exact h.others id hid

end Tasks

end Exchange

end Switchboard
