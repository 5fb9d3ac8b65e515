import Switchboard.Proofs.Routing.Stock

/-!
# One target after another

A message goes to its targets one after another. One that is connected to the shard itself is sent
its frames, for one at another shard they are handed over to that, and for one that is away the
message is kept. `Dispatched` says that this was done for some targets, whatever was `Afoot` before:
what each of them has got depends on nobody else. Every target keeps it so, whatever becomes of its
part (`ends_deliver`).
-/

namespace Switchboard

/-- More frames are handed over to a shard. -/
def Traffic.handOn (t : Traffic) (handovers : List Handover) : Traffic :=
  { t with forward := t.forward ++ handovers }

/-- What was on its way before a message is routed: what waited at each shard, what those who are
connected had been sent, and the fragments that were being joined. -/
structure Afoot where
  traffic : Nat → Traffic
  sent : Nat → String → List Bytes
  joined : Nat → Option Assembler

namespace Exchange

/-- Nothing was on its way. -/
def calm (x : Exchange) : Afoot :=
  { traffic := fun _ => {}, sent := fun _ _ => [], joined := x.assembler? }

/-- Those of some targets who are away. -/
def absent (x : Exchange) (targets : List String) : List String :=
  targets.filter fun target => !x.services.presence.isOnline target

/-- The frames of a message to some targets that are due at a shard: those for the ones it has. -/
def due (x : Exchange) (frames : List Bytes) (targets : List String) (shard : Nat) :
    List Handover :=
  targets.flatMap fun target =>
    if (x.holder? shard target).isSome then frames.map (Handover.mk target) else []

/-- The frames of a message that was routed at a shard, right after it: those for targets of the
shard have arrived, and the others were handed over. -/
def lanesFrom (x : Exchange) (shard : Nat) (frames : List Bytes) (targets : List String) :
    Nat → Lane :=
  fun id =>
    if id = shard then { arrived := x.due frames targets id }
    else { handed := x.due frames targets id }

section Due

variable {x : Exchange} {shard id : Nat} {frames : List Bytes} {targets : List String}
  {target : String}

/-- What is due to more targets is due behind. -/
theorem due_append (x : Exchange) (frames : List Bytes) (targets targets' : List String)
    (id : Nat) :
    x.due frames (targets ++ targets') id = x.due frames targets id ++ x.due frames targets' id :=
  List.flatMap_append

theorem due_nil (x : Exchange) (targets : List String) (id : Nat) : x.due [] targets id = [] := by
  refine List.flatMap_eq_nil_iff.2 fun target _ => ?_
  rw [List.map_nil, ite_self]

/-- At the shard that holds it, a target is due all the frames. -/
theorem due_of_held {session : Session} (hheld : x.holder? id target = some session)
    (frames : List Bytes) : x.due frames [target] id = frames.map (Handover.mk target) := by
  rw [due, List.flatMap_cons, List.flatMap_nil, List.append_nil, hheld]
  rfl

theorem due_of_none (hnone : x.holder? id target = none) (frames : List Bytes) :
    x.due frames [target] id = [] := by
  rw [due, List.flatMap_cons, List.flatMap_nil, List.append_nil, hnone]
  rfl

/-- Every target that a shard has is due every frame. -/
theorem length_due (x : Exchange) (frames : List Bytes) (targets : List String) (id : Nat) :
    (x.due frames targets id).length
      = frames.length * targets.countP fun target => (x.holder? id target).isSome := by
  induction targets with
  | nil => rfl
  | cons target targets ih =>
      rw [← List.singleton_append, due_append, List.length_append, ih, List.countP_append,
        Nat.mul_add]
      refine congrArg (· + _) ?_
      -- a target at another shard adds nothing here
      cases hheld : x.holder? id target with
      | none => simp [due, hheld]
      | some session => simp [due, hheld]

/-- Only targets are due anything, and only frames of the message. -/
theorem mem_due {h : Handover} (hmem : h ∈ x.due frames targets id) :
    h.target ∈ targets ∧ (∃ session, x.holder? id h.target = some session) ∧ h.frame ∈ frames := by
  obtain ⟨target, htarget, hmem⟩ := List.mem_flatMap.1 hmem
  split at hmem
  · next hheld =>
      obtain ⟨frame, hframe, rfl⟩ := List.mem_map.1 hmem
      exact ⟨htarget, Option.isSome_iff_exists.1 hheld, hframe⟩
  · exact absurd hmem List.not_mem_nil

/-- What is due for one target. -/
theorem filter_due_single (x : Exchange) (frames : List Bytes) (target identity : String)
    (id : Nat) : ((x.due frames [target] id).filter (·.target = identity)).map Handover.frame
      = if target = identity ∧ (x.holder? id target).isSome then frames else [] := by
  rw [due, List.flatMap_cons, List.flatMap_nil, List.append_nil]
  by_cases hheld : (x.holder? id target).isSome = true
  · rw [if_pos hheld]
    by_cases htarget : target = identity
    · rw [if_pos ⟨htarget, hheld⟩, List.filter_map, List.filter_eq_self.2, List.map_map]
      · exact List.map_id _
      · intro frame _
        exact decide_eq_true htarget
    · rw [if_neg fun h => htarget h.1, List.filter_eq_nil_iff.2]
      · rfl
      · intro h hh
        obtain ⟨frame, -, rfl⟩ := List.mem_map.1 hh
        simpa using htarget
  · rw [if_neg hheld, if_neg fun h => hheld h.2]
    rfl

/-- Whoever is held at a shard is due the frames if they are for it. -/
theorem filter_due (hnodup : targets.Nodup) {identity : String} {session : Session}
    (hheld : x.holder? id identity = some session) (frames : List Bytes) :
    ((x.due frames targets id).filter (·.target = identity)).map Handover.frame
      = if identity ∈ targets then frames else [] := by
  induction targets with
  | nil => rfl
  | cons target targets ih =>
      obtain ⟨hnot, hnodup⟩ := List.nodup_cons.1 hnodup
      rw [← List.singleton_append, due_append, List.filter_append, List.map_append, ih hnodup,
        filter_due_single]
      -- no target comes twice, so the frames come once
      by_cases htarget : target = identity
      · subst htarget
        rw [if_pos ⟨rfl, by rw [hheld]; rfl⟩, if_neg hnot, List.append_nil,
          if_pos (List.mem_append_left _ List.mem_cons_self)]
      · rw [if_neg fun h => htarget h.1, List.nil_append]
        refine if_congr ?_ rfl rfl
        rw [List.singleton_append, List.mem_cons]
        exact ⟨Or.inr, fun h => h.resolve_left (Ne.symm htarget)⟩

end Due

/-- Who is held nowhere is away. -/
theorem away_of_not_connected {x : Exchange} {identity : String}
    (h : ¬ ∃ id session, x.holder? id identity = some session) (id : Nat) :
    x.holder? id identity = none := by
  cases hheld : x.holder? id identity with
  | none => rfl
  | some session => exact absurd ⟨id, session, hheld⟩ h

section Orderly

variable {x : Exchange} (hx : x.Orderly) {id : Nat} {identity : String} {session : Session}

include hx

/-- In an orderly pool somebody is online just when some shard holds it. -/
theorem Orderly.isOnline_iff (identity : String) :
    x.services.presence.isOnline identity = true
      ↔ ∃ id session, x.holder? id identity = some session := by
  have hagrees := hx.agrees identity
  refine hagrees.online.trans ⟨?_, ?_⟩
  · rintro ⟨id, hindex⟩
    obtain ⟨session, hheld⟩ := (hagrees.index id).1 hindex
    exact ⟨id, session, hheld⟩
  · rintro ⟨id, session, hheld⟩
    exact ⟨id, (hagrees.index id).2 ⟨session, hheld⟩⟩

theorem Orderly.isOnline_of_held (hheld : x.holder? id identity = some session) :
    x.services.presence.isOnline identity = true :=
  (hx.isOnline_iff identity).2 ⟨id, session, hheld⟩

theorem Orderly.isOnline_of_away (haway : ∀ id, x.holder? id identity = none) :
    x.services.presence.isOnline identity = false := by
  rw [Bool.eq_false_iff]
  intro honline
  obtain ⟨id, session, hheld⟩ := (hx.isOnline_iff identity).1 honline
  exact Option.some_ne_none session (hheld.symm.trans (haway id))

theorem Orderly.index_of_held (hheld : x.holder? id identity = some session) :
    x.pool.index.get? identity = some id :=
  ((hx.agrees identity).index id).2 ⟨session, hheld⟩

theorem Orderly.index_of_away (haway : ∀ id, x.holder? id identity = none) :
    x.pool.index.get? identity = none := by
  cases hindex : x.pool.index.get? identity with
  | none => rfl
  | some id =>
      obtain ⟨session, hheld⟩ := ((hx.agrees identity).index id).1 hindex
      exact absurd (hheld.symm.trans (haway id)) (Option.some_ne_none session)

/-- No identity is held at two shards. -/
theorem Orderly.holder?_of_ne (hheld : x.holder? id identity = some session) {id' : Nat}
    (hne : id' ≠ id) : x.holder? id' identity = none := by
  cases h : x.holder? id' identity with
  | none => rfl
  | some session' => exact absurd ((hx.agrees identity).unique _ _ _ _ h hheld) hne

/-- Who is held is not away. -/
theorem Orderly.absent_of_held (hheld : x.holder? id identity = some session) :
    x.absent [identity] = [] := by
  rw [absent, List.filter_singleton, hx.isOnline_of_held hheld]
  rfl

end Orderly

theorem absent_append (x : Exchange) (targets targets' : List String) :
    x.absent (targets ++ targets') = x.absent targets ++ x.absent targets' :=
  List.filter_append ..

/-- Nothing is handed over to the shard itself. -/
theorem handed_lanesFrom (x : Exchange) (shard : Nat) (frames : List Bytes)
    (targets : List String) (id : Nat) : (x.lanesFrom shard frames targets id).handed
      = if id = shard then [] else x.due frames targets id := by
  rw [lanesFrom]
  split
  · rfl
  · rfl

/-- What one more target receives at once. -/
theorem received_lanesFrom_concat (x : Exchange) (shard : Nat) (frames : List Bytes)
    (done : List String) (target : String) (id : Nat) (identity : String) :
    (x.lanesFrom shard frames (done ++ [target]) id).received identity
      = (x.lanesFrom shard frames done id).received identity ++
        if id = shard ∧ target = identity ∧ (x.holder? id target).isSome then frames else [] := by
  rw [lanesFrom, lanesFrom]
  by_cases hid : id = shard
  · rw [if_pos hid, if_pos hid, Lane.received, due_append, List.filter_append, List.map_append,
      filter_due_single]
    exact congrArg _ (if_congr (by simp only [hid, true_and]) rfl rfl)
  · rw [if_neg hid, if_neg hid, if_neg fun h => hid h.1]
    rfl

/-- A message was dispatched to some targets from a shard with a certain stock, whatever was on its
way before. -/
structure Dispatched (x : Exchange) (before : Afoot) (shard : Nat) (e : Envelope)
    (frames : List Bytes) (k : Stock) (done : List String) (s : Errand) : Prop where
  bare : s.exchange.bare = x.bare
  traffic : ∀ id, s.exchange.view.traffic id
    = (before.traffic id).handOn (x.lanesFrom shard frames done id).handed
  mail : x.Mailed s.exchange.mail fun id identity =>
    before.sent id identity ++ (x.lanesFrom shard frames done id).received identity
  stock : s.stock shard = k.keepAll x.now e (x.absent done)
  others : ∀ id, id ≠ shard → s.exchange.assembler? id = before.joined id

end Exchange

/-- To give somebody frames takes nothing from the stock. -/
theorem Routing.Gave.stock {s s' : Errand} {session : Session} {frames : List Bytes}
    (h : Gave s session frames s') (shard : Nat) : s'.stock shard = s.stock shard := by
  have hoffline : s'.exchange.services.offline = s.exchange.services.offline :=
    Exchange.offline_of_view h.view
  have hissued : s'.exchange.issued = s.exchange.issued := Exchange.issued_of_view h.view
  rw [Errand.stock, Errand.stock, hoffline, hissued, h.assembler?, h.copy, h.given]

namespace Exchange

section Dispatched

variable {x : Exchange} {before : Afoot} {shard : Nat} {e : Envelope} {frames : List Bytes}
  {k : Stock} {done : List String} {s s' : Errand} {target : String}

/-- A target on the shard itself was sent its frames. -/
theorem dispatched_of_here (hx : x.Orderly) (h : x.Dispatched before shard e frames k done s)
    {session : Session} (hheld : x.holder? shard target = some session)
    (hgave : Routing.Gave s session frames s') :
    x.Dispatched before shard e frames k (done ++ [target]) s' where
  bare := (bare_of_view hgave.view).trans h.bare
  traffic id := by
    refine ((traffic_of_view hgave.view id).trans (h.traffic id)).trans ?_
    rw [handed_lanesFrom, handed_lanesFrom]
    -- nothing is handed over for a target of the shard itself, and it is held at no other one
    by_cases hid : id = shard
    · rw [if_pos hid, if_pos hid]
    · rw [if_neg hid, if_neg hid, due_append, due_of_none (hx.holder?_of_ne hheld hid),
        List.append_nil]
  mail := by
    rw [mail_of_view hgave.view]
    refine Mailed.give (v := s.exchange.view) hx.owned hx.agrees h.mail hheld ?_ ?_
    · rw [received_lanesFrom_concat, if_pos ⟨rfl, rfl, by rw [hheld]; rfl⟩, List.append_assoc]
    · intro id identity _ hne
      rw [received_lanesFrom_concat, if_neg fun h => hne h.2.1.symm, List.append_nil]
  stock := by
    rw [hgave.stock, absent_append, hx.absent_of_held hheld, List.append_nil]
    exact h.stock
  others id hid := (congrFun hgave.assembler? id).trans (h.others id hid)

/-- The frames for a target at another shard were handed over to that. -/
theorem dispatched_of_elsewhere (hx : x.Orderly)
    (h : x.Dispatched before shard e frames k done s) {owner : Nat} {session : Session}
    (hheld : x.holder? owner target = some session)
    (hne : owner ≠ shard) {y : Exchange}
    (hview : y.view = s.exchange.view.setTraffic owner { s.exchange.view.traffic owner with
      forward := (s.exchange.view.traffic owner).forward ++ frames.map (Handover.mk target) })
    (hassembler : y.assembler? = s.exchange.assembler?) :
    x.Dispatched before shard e frames k (done ++ [target]) { s with exchange := y } where
  bare := (bare_of_view hview).trans h.bare
  traffic id := by
    refine (traffic_of_view hview id).trans ?_
    show (if id = owner then _ else s.exchange.view.traffic id) = _
    rw [handed_lanesFrom, due_append]
    by_cases hid : id = owner
    · subst hid
      rw [if_pos rfl, h.traffic id, handed_lanesFrom, if_neg hne, if_neg hne, due_of_held hheld,
        Traffic.handOn, Traffic.handOn, List.append_assoc]
    · rw [if_neg hid, h.traffic id, handed_lanesFrom,
        due_of_none (hx.holder?_of_ne hheld hid), List.append_nil]
  mail := by
    have hmail : y.mail = s.exchange.mail := mail_of_view hview
    rw [hmail]
    refine h.mail.congr fun id identity _ => ?_
    rw [received_lanesFrom_concat, if_neg, List.append_nil]
    -- at this shard the target is not held, so it received nothing at once
    rintro ⟨rfl, -, hsome⟩
    rw [hx.holder?_of_ne hheld (Ne.symm hne)] at hsome
    exact Bool.false_ne_true hsome
  stock := by
    have hoffline : y.services.offline = s.exchange.services.offline := offline_of_view hview
    have hissued : y.issued = s.exchange.issued := issued_of_view hview
    rw [absent_append, hx.absent_of_held hheld, List.append_nil, ← h.stock, Errand.stock,
      Errand.stock, hoffline, hissued, hassembler]
  others id hid := (congrFun hassembler id).trans (h.others id hid)

/-- The message was kept for a target that is away. -/
theorem dispatched_of_away (h : x.Dispatched before shard e frames k done s)
    (haway : ∀ id, x.holder? id target = none)
    (hoffline : x.services.presence.isOnline target = false)
    (hstored : Routing.Stored s shard ((s.stock shard).keep x.now e target) s') :
    x.Dispatched before shard e frames k (done ++ [target]) s' where
  bare := (bare_of_view hstored.view).trans h.bare
  traffic id := by
    refine ((traffic_of_view hstored.view id).trans (h.traffic id)).trans ?_
    rw [handed_lanesFrom, handed_lanesFrom, due_append, due_of_none (haway id), List.append_nil]
  mail := by
    have hmail : s'.exchange.mail = s.exchange.mail := mail_of_view hstored.view
    rw [hmail]
    refine h.mail.congr fun id identity _ => ?_
    rw [received_lanesFrom_concat, if_neg, List.append_nil]
    rintro ⟨-, -, hsome⟩
    rw [haway id] at hsome
    exact Bool.false_ne_true hsome
  stock := by
    have habsent : x.absent [target] = [target] := by
      rw [absent, List.filter_singleton, hoffline]
      rfl
    rw [hstored.stock, h.stock, absent_append, habsent, Stock.keepAll_concat]
  others id hid := (hstored.others id hid).trans (h.others id hid)

end Dispatched

/-- Whether events are taken does not depend on anything but the broker. -/
theorem mute_of_publishing {x y : Exchange}
    (h : y.services.publishing = x.services.publishing) (hx : x.Mute) : y.Mute := by
  intro event
  have hnone := hx event
  rw [publish] at hnone ⊢
  rw [h]
  -- a broker that nobody listens to takes no event, whatever else there is
  cases hpublishing : x.services.publishing with
  | off => rfl
  | refusing => rfl
  | broker broker =>
      rw [hpublishing] at hnone
      cases hpublish : broker.publish event with
      | none => simp only [hpublish]
      | some broker' =>
          simp only [hpublish] at hnone
          exact absurd hnone.symm (Option.some_ne_none _).symm

section Bare

variable {x y : Exchange} (h : y.bare = x.bare)

include h

theorem outages_of_bare : y.services.outages = x.services.outages := by
  show y.bare.services.outages = x.bare.services.outages
  rw [h]

theorem isReachable_of_bare : y.pool.isReachable = x.pool.isReachable := by
  show y.bare.pool.isReachable = x.bare.pool.isReachable
  rw [h]

/-- How frames are published is no part of what is on its way. -/
theorem publishing_of_bare : y.services.publishing = x.services.publishing := by
  show y.bare.services.publishing = x.bare.services.publishing
  rw [h]

theorem consumer_of_bare : y.pool.consumer = x.pool.consumer := by
  show y.bare.pool.consumer = x.bare.pool.consumer
  rw [h]

theorem groups_of_bare : y.services.groups = x.services.groups := by
  show y.bare.services.groups = x.bare.services.groups
  rw [h]

theorem isAssistant_of_bare (identity : String) :
    y.services.isAssistant identity = x.services.isAssistant identity := by
  show y.bare.services.isAssistant identity = x.bare.services.isAssistant identity
  rw [h]

theorem mute_of_bare (hx : x.Mute) : y.Mute := mute_of_publishing (publishing_of_bare h) hx

end Bare

end Exchange

namespace Routing

section Deliver

variable {x : Exchange} {before : Afoot} {shard : Nat} {e : Envelope} {frames : List Bytes}
  {k : Stock} {done : List String} {s : Errand} {target : String}

/-- Where a connection is on the shard itself and nothing can be published, the frames are written
to it. -/
theorem ends_deliver_here (hx : x.Orderly) (hmute : x.Mute) (hframes : frames ≠ [])
    (h : x.Dispatched before shard e frames k done s) {session : Session}
    (hheld : x.holder? shard target = some session) :
    Ends (deliver shard e target frames) s
      (x.Dispatched before shard e frames k (done ++ [target])) := by
  have honline : s.exchange.services.presence.isOnline target = true :=
    (Exchange.isOnline_of_bare h.bare target).trans (hx.isOnline_of_held hheld)
  have hheld' := (Exchange.holder?_of_bare h.bare shard target).trans hheld
  have hevents : frames.map (BrokerEvent.direct target) ≠ [] :=
    fun hnil => hframes (List.map_eq_nil_iff.1 hnil)
  refine Runs.bind_ends (runs_isOnline ((Exchange.outages_of_bare h.bare).trans hx.well) target) ?_
  rw [honline]
  refine Ends.exchange_bind ?_
  rw [Exchange.whereabouts_of_holder? hheld']
  refine Runs.bind_ends (runs_published (Exchange.mute_of_bare h.bare hmute) hevents) ?_
  -- the connection that the registry names is there, and is the one of its session
  have hkey : s.exchange.view.KeepsAt session :=
    Exchange.Mailed.keepsAt (v := s.exchange.view) hx.owned h.mail hheld
  exact (ends_write shard hkey frames).mono fun s' hs' =>
    Exchange.dispatched_of_here hx h hheld hs'

/-- Where it is at another shard with room for the frames, they are handed over. -/
theorem ends_deliver_elsewhere (hx : x.Orderly) (h : x.Dispatched before shard e frames k done s)
    {owner : Nat} {session : Session} (hheld : x.holder? owner target = some session)
    (hne : owner ≠ shard) (hroom : s.exchange.view.CanForward owner frames.length) :
    Ends (deliver shard e target frames) s
      (x.Dispatched before shard e frames k (done ++ [target])) := by
  have honline : s.exchange.services.presence.isOnline target = true :=
    (Exchange.isOnline_of_bare h.bare target).trans (hx.isOnline_of_held hheld)
  have hnone : s.exchange.holder? shard target = none :=
    (Exchange.holder?_of_bare h.bare shard target).trans (hx.holder?_of_ne hheld (Ne.symm hne))
  have hindex : s.exchange.pool.index.get? target = some owner := by
    rw [Exchange.index_of_bare h.bare]
    exact hx.index_of_held hheld
  refine Runs.bind_ends (runs_isOnline ((Exchange.outages_of_bare h.bare).trans hx.well) target) ?_
  rw [honline]
  refine Ends.exchange_bind ?_
  rw [Exchange.whereabouts_of_index hnone
    ((Exchange.isReachable_of_bare h.bare).trans hx.reachable) hindex hne]
  obtain ⟨y, hforward, hview, hassembler⟩ := runs_forward target hroom
  exact .of_runs hforward (Exchange.dispatched_of_elsewhere hx h hheld hne hview hassembler)

theorem ends_store_of_away (hx : x.Orderly) (h : x.Dispatched before shard e frames k done s)
    (haway : ∀ id, x.holder? id target = none) :
    Ends (store shard e target) s (x.Dispatched before shard e frames k (done ++ [target])) := by
  have hwell := (Exchange.outages_of_bare h.bare).trans hx.well
  refine (ends_store hwell shard e target).mono fun s' hs' => ?_
  rw [Exchange.now_of_bare h.bare] at hs'
  exact Exchange.dispatched_of_away h haway (hx.isOnline_of_away haway) hs'

theorem ends_deliver_away (hx : x.Orderly) (h : x.Dispatched before shard e frames k done s)
    (haway : ∀ id, x.holder? id target = none) :
    Ends (deliver shard e target frames) s
      (x.Dispatched before shard e frames k (done ++ [target])) := by
  refine Runs.bind_ends (runs_isOnline ((Exchange.outages_of_bare h.bare).trans hx.well) target) ?_
  rw [Exchange.isOnline_of_bare h.bare, hx.isOnline_of_away haway]
  exact ends_store_of_away hx h haway

/-- **Whatever becomes of one target, the message was dispatched to it as to the ones before.** -/
theorem ends_deliver (hx : x.Orderly) (hframes : frames ≠ [])
    (hmute : x.Mute ∨ x.holder? shard target = none)
    (h : x.Dispatched before shard e frames k done s)
    (hroom : ∀ owner session, owner ≠ shard → x.holder? owner target = some session →
      s.exchange.view.CanForward owner frames.length) :
    Ends (deliver shard e target frames) s
      (x.Dispatched before shard e frames k (done ++ [target])) := by
  by_cases hconnected : ∃ owner session, x.holder? owner target = some session
  · obtain ⟨owner, session, hheld⟩ := hconnected
    by_cases howner : owner = shard
    · subst howner
      refine ends_deliver_here hx (hmute.resolve_right fun hnone => ?_) hframes h hheld
      exact Option.some_ne_none session (hheld.symm.trans hnone)
    · exact ends_deliver_elsewhere hx h hheld howner (hroom owner session howner hheld)
  · exact ends_deliver_away hx h (Exchange.away_of_not_connected hconnected)

end Deliver

end Routing

end Switchboard
