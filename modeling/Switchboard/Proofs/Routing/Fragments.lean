import Switchboard.Proofs.Routing.Carrier

/-!
# Messages that come in fragments

A client may split a message itself. Its fragments are passed on as they are to those who are
connected, and for those who are away they are joined at the shard where they come in. In whatever
order they come and are routed, and whatever happens in between, each of them is taken in once,
however many of those it is for are away (`routed_fragment`). The last one completes the message,
which is then kept once for everybody who is away; and everybody who is connected was sent each
fragment once (`joinedOnce_of_incoming`).
-/

namespace Switchboard

/-- One unread record of a message for each of some targets, and no other record. -/
structure Envelope.KeptOnce (e : Envelope) (targets : List String) (kept : OfflineStore) :
    Prop where
  each : ∀ target ∈ targets, ∃ now, kept.filter (·.target = target)
    = [{ messageId := e.messageId, sender := e.sender, target, content := e.content
         isRead := false, createdAt := now }]
  only : ∀ record ∈ kept, record.target ∈ targets

/-- What is kept of a message with an identity that is no call signal. -/
theorem Envelope.KeptFor.once {e : Envelope} {targets : List String} {now first next : Nat}
    {kept : OfflineStore} (h : e.KeptFor targets now first next kept)
    (hsignal : e.contentKind.isCallSignal = false) (hid : e.messageId ≠ "") :
    e.KeptOnce targets kept where
  each target htarget := by
    obtain ⟨id, hnamed, -, heq⟩ := (h.each target htarget).2 hsignal
    rw [hnamed hid] at heq
    exact ⟨now, heq⟩
  only := h.only

namespace Exchange

/-- The envelopes that the assembler of a shard is given while a task is routed there. -/
def giving (x : Exchange) (shard : Nat) (task : Task) : List Envelope :=
  ((Routing.route shard task).run.run { exchange := x, copy := .unresolved }).2.given

theorem giving_of_ends {x : Exchange} {shard : Nat} {task : Task} {P : Errand → Prop}
    (h : Routing.Ends (Routing.route shard task) { exchange := x, copy := .unresolved } P) :
    ∃ s, P s ∧ x.routeTask shard task = s.exchange ∧ x.giving shard task = s.given := by
  obtain ⟨result, s, hrun, hresult, hs⟩ := h
  obtain ⟨s', hs', hroute⟩ := routeTask_of_ends (P := (· = s)) ⟨result, s, hrun, hresult, rfl⟩
  subst hs'
  refine ⟨s', hs, hroute, ?_⟩
  rw [giving, hrun]

/-! ## What may happen -/

/-- A message for somebody who is away comes in at a shard in fragments that whoever sends it made
of it: it is no call signal, and has no more fragments than the shard takes, which has none of
them. -/
structure ComesInParts (x : Exchange) (shard : Nat) (limits : FragmentLimits) (fresh : String)
    (stamp : Int64) (e : Envelope) (fs : List Envelope) : Prop where
  orderly : x.Orderly
  recipient : e.recipient ≠ ""
  person : e.deliveryKind = .direct → x.services.isAssistant e.recipient = false
  signal : e.contentKind.isCallSignal = false
  away : x.absent (x.targets e) ≠ []
  split : e.split limits fresh stamp = .ok fs
  named : fresh ≠ ""
  measured : (e.completed fresh stamp).encode.length < 256 ^ 8
  joining : ∃ a, x.assembler? shard = some a ∧ fs.length ≤ a.limits.cap.toNat ∧
    a.pending.get? (e.completed fresh stamp).messageId = none

/-- What may happen while the fragments of a message come in at a shard, in any order and each of
them once: the tasks that were handed in so far. Time passes as well, and forgotten fragments are
looked for, but none of the message is forgotten. -/
inductive Incoming (x : Exchange) (shard : Nat) (messageId : String) (fs : List Envelope) :
    List Task → Exchange → Prop
  | start : Incoming x shard messageId fs [] x
  | handIn {accepted : List Task} {y : Exchange} {f : Envelope} {raw : Bytes}
      (h : Incoming x shard messageId fs accepted y) (decode : Envelope.decode raw = .ok f)
      (once : ((accepted ++ [inbound f raw]).map Task.envelope).Subperm fs) :
      Incoming x shard messageId fs (accepted ++ [inbound f raw])
        (y.enqueueEnvelope shard f raw).2
  | act {accepted : List Task} {y : Exchange} {action : Action}
      (h : Incoming x shard messageId fs accepted y) (serves : action.serves = true) :
      Incoming x shard messageId fs accepted (y.act action)
  | wait {accepted : List Task} {y : Exchange} (h : Incoming x shard messageId fs accepted y)
      (duration : Nat) : Incoming x shard messageId fs accepted (y.wait duration)
  | sweep {accepted : List Task} {y : Exchange} (h : Incoming x shard messageId fs accepted y)
      (id : Nat) (inTime : ∀ b assembly, y.assembler? id = some b →
        b.pending.get? messageId = some assembly → b.isExpired y.now assembly = false) :
      Incoming x shard messageId fs accepted (y.sweep id)

section Incoming

variable {x y : Exchange} {shard : Nat} {messageId : String} {fs : List Envelope}
  {accepted : List Task}

theorem Incoming.subperm (h : x.Incoming shard messageId fs accepted y) :
    (accepted.map Task.envelope).Subperm fs := by
  induction h with
  | start => exact List.nil_subperm
  | handIn h decode once ih => exact once
  | act h serves ih => exact ih
  | wait h duration ih => exact ih
  | sweep h id inTime ih => exact ih

theorem Incoming.tasks (h : x.Incoming shard messageId fs accepted y) {task : Task}
    (htask : task ∈ accepted) :
    ∃ f raw, task = inbound f raw ∧ Envelope.decode raw = .ok f := by
  induction h with
  | start => exact absurd htask List.not_mem_nil
  | handIn h decode once ih =>
      rcases List.mem_append.1 htask with hmem | hmem
      · exact ih hmem
      · -- it is the task that was handed in last
        exact ⟨_, _, List.mem_singleton.1 hmem, decode⟩
  | act h serves ih => exact ih htask
  | wait h duration ih => exact ih htask
  | sweep h id inTime ih => exact ih htask

theorem Incoming.run (h : x.Incoming shard messageId fs accepted y) {more : List Action}
    (hmore : ∀ action ∈ more, action.serves = true) :
    x.Incoming shard messageId fs accepted (y.run more) := by
  induction more generalizing y with
  | nil => exact h
  | cons action more ih =>
      obtain ⟨haction, hmore⟩ := List.forall_mem_cons.1 hmore
      exact ih (h.act haction) hmore

end Incoming

/-! ## Taken in once -/

/-- The places of the fragments that some tasks bring. -/
def places (tasks : List Task) : Finset UInt32 :=
  ((tasks.map Task.envelope).map (·.fragmentIndex)).toFinset

/-- What has come at a shard of the fragments that were routed: a part of the message, and nothing
was kept; or all of it, and it was kept once for those who are away. -/
inductive Gathered (x : Exchange) (shard : Nat) (limits : FragmentLimits) (whole : Envelope)
    (done : List Task) (y : Exchange) : Prop
  | part {b : Assembler} (joined : y.assembler? shard = some b)
      (gap : done.length < (whole.shares limits).length)
      (holds : Assembler.Holds limits whole (places done) b)
      (offline : y.services.offline = x.services.offline)
  | all {b : Assembler} {kept : OfflineStore} (joined : y.assembler? shard = some b)
      (full : done.length = (whole.shares limits).length)
      (gone : b.pending.get? whole.messageId = none)
      (offline : y.services.offline = x.services.offline ++ kept)
      (once : whole.KeptOnce (x.absent (x.targets whole)) kept)

/-- A message that can be put together from its fragments and kept. -/
structure Joinable (x : Exchange) (whole : Envelope) : Prop where
  signal : whole.contentKind.isCallSignal = false
  named : whole.messageId ≠ ""
  fits : whole.Fits
  away : x.absent (x.targets whole) ≠ []

section Gathered

variable {x y z : Exchange} {shard n : Nat} {limits : FragmentLimits} {whole f : Envelope}
  {raw : Bytes} {done : List Task} {T : List Bytes → Exchange → Prop} {s : Errand}

theorem Gathered.congr (h : x.Gathered shard limits whole done y)
    (hassembler : z.assembler? shard = y.assembler? shard)
    (hoffline : z.services.offline = y.services.offline) :
    x.Gathered shard limits whole done z := by
  cases h with
  | part joined gap holds offline =>
      exact .part (hassembler.trans joined) gap holds (hoffline.trans offline)
  | all joined full gone offline once =>
      exact .all (hassembler.trans joined) full gone (hoffline.trans offline) once

theorem addressedLike_of_mem (hf : f ∈ whole.fragments limits) :
    f.AddressedLike whole ∧ f.isFragment = true := by
  obtain ⟨index, share, -, rfl⟩ := Envelope.mem_fragments hf
  exact ⟨⟨rfl, rfl, rfl⟩, rfl⟩

theorem places_append (done : List Task) (f : Envelope) (raw : Bytes) :
    places (done ++ [inbound f raw]) = insert f.fragmentIndex (places done) := by
  ext i
  simp [places, inbound]

theorem mem_fragments_of_subperm
    (hsub : ((done ++ [inbound f raw]).map Task.envelope).Subperm (whole.fragments limits)) :
    f ∈ whole.fragments limits := by
  refine hsub.subset ?_
  rw [List.map_append]
  exact List.mem_append_right _ List.mem_cons_self

theorem length_lt_of_subperm
    (hsub : ((done ++ [inbound f raw]).map Task.envelope).Subperm (whole.fragments limits)) :
    done.length < (whole.shares limits).length := by
  have hlength := hsub.length_le
  rwa [List.length_map, List.length_append, List.length_singleton,
    Envelope.length_fragments] at hlength

/-- What an assembler that holds some fragments does with another one. -/
theorem receive_of_holds {b : Assembler} (hwhole : x.Joinable whole)
    (holds : Assembler.Holds limits whole (places done) b)
    (hsub : ((done ++ [inbound f raw]).map Task.envelope).Subperm (whole.fragments limits))
    (now : Nat) :
    (done.length + 1 = (whole.shares limits).length →
      b.receive now f = (.ok (.complete whole.clearFragmentFields),
        { b with pending := b.pending.erase whole.messageId })) ∧
    (done.length + 1 ≠ (whole.shares limits).length → ∃ b', b.receive now f
      = (.ok (.pending (done.length + 1) (UInt32.ofNat (whole.shares limits).length)), b') ∧
        Assembler.Holds limits whole (places (done ++ [inbound f raw])) b') := by
  have hlt : (whole.shares limits).length < 2 ^ 32 :=
    Nat.lt_of_le_of_lt holds.cap b.limits.cap.toNat_lt
  -- no fragment came twice, so there are as many places as fragments
  have hcard : (insert f.fragmentIndex (places done)).card = done.length + 1 := by
    rw [List.map_append] at hsub
    exact (Assembler.card_of_subperm hlt hsub).trans (by rw [List.length_map])
  obtain ⟨hfull, hmore⟩ := Assembler.receive_fragment holds hwhole.named hwhole.fits
    (mem_fragments_of_subperm hsub) now
  rw [hcard] at hfull hmore
  refine ⟨hfull, fun hgap => ?_⟩
  obtain ⟨hreceive, hholds⟩ := hmore hgap
  rw [places_append]
  exact ⟨_, Prod.ext hreceive rfl, hholds⟩

/-- **A fragment is taken in once, for all of those who are away.** Where it leaves a gap nothing is
kept, and where it leaves none the message is kept once for each of them. -/
theorem gathered_of_keepAll (hx : x.Orderly) (hwhole : x.Joinable whole)
    (h : x.Gathered shard limits whole done y)
    (hsub : ((done ++ [inbound f raw]).map Task.envelope).Subperm (whole.fragments limits))
    (hs : s.stock shard = (y.stock shard).keepAll y.now f (x.absent (x.targets whole))) :
    x.Gathered shard limits whole (done ++ [inbound f raw]) s.exchange ∧ s.given = [f] := by
  have hless := length_lt_of_subperm hsub
  have hfragment := (addressedLike_of_mem (mem_fragments_of_subperm hsub)).2
  have hcount : (done ++ [inbound f raw]).length = done.length + 1 := by
    rw [List.length_append, List.length_singleton]
  cases h with
  -- all fragments were there before, so there was none left to come
  | all joined full gone offline once => exact absurd hless (Nat.not_lt.2 full.ge)
  | @part b joined gap holds offline =>
      obtain ⟨hfull, hmore⟩ := receive_of_holds hwhole holds hsub y.now
      have hassembler : (y.stock shard).assembler = some b := joined
      have hsame : ∀ {k : Stock}, s.stock shard = k → s.exchange.assembler? shard = k.assembler ∧
          s.exchange.services.offline = k.offline ∧ s.given = k.given := by
        rintro k rfl
        exact ⟨rfl, rfl, rfl⟩
      by_cases hlast : done.length + 1 = (whole.shares limits).length
      · -- the last gap is filled: the message is kept for each of those who are away
        have hnodup : (x.absent (x.targets whole)).Nodup := (nodup_targets hx whole).filter _
        obtain ⟨kept, hkept, hstored, hleft, hgave⟩ := Stock.keptFor_of_complete hfragment
          hassembler rfl (hfull hlast) rfl hwhole.away hnodup
        have honce := hkept.once hwhole.signal hwhole.named
        obtain ⟨hjoined, hoffline, hgiven⟩ := hsame hs
        refine ⟨.all (hjoined.trans hleft) (hcount.trans hlast) ?_ ?_ ⟨honce.each, honce.only⟩,
          hgiven.trans hgave⟩
        · rw [Table.get?_erase, if_pos rfl]
        · rw [hoffline, hstored]
          exact congrArg (· ++ kept) offline
      · -- a gap is left: for nobody there is anything to keep
        obtain ⟨b', hreceive, hholds⟩ := hmore hlast
        rw [Stock.keepAll_of_pending hfragment hassembler rfl hreceive hwhole.away] at hs
        obtain ⟨hjoined, hoffline, hgiven⟩ := hsame hs
        exact ⟨.part hjoined (by omega) hholds (hoffline.trans offline), hgiven⟩

/-- **A fragment that is routed is taken in once**, however many of those it is for are away, and it
is sent on its way to the others. -/
theorem routed_fragment (hx : x.Orderly) (hT : x.Carrier shard whole n T)
    (hwhole : x.Joinable whole) (hless : done.length < n)
    (hsent : T (done.map Task.raw) y) (h : x.Gathered shard limits whole done y)
    (hsub : ((done ++ [inbound f raw]).map Task.envelope).Subperm (whole.fragments limits))
    (hdecode : Envelope.decode raw = .ok f) :
    T ((done ++ [inbound f raw]).map Task.raw) (y.routeTask shard (inbound f raw)) ∧
      (y.routeTask shard (inbound f raw)).view.traffic shard = y.view.traffic shard ∧
      x.Gathered shard limits whole (done ++ [inbound f raw])
        (y.routeTask shard (inbound f raw)) ∧
      y.giving shard (inbound f raw) = [f] := by
  obtain ⟨hlike, hfragment⟩ := addressedLike_of_mem (mem_fragments_of_subperm hsub)
  obtain ⟨s, ⟨hsent', htraffic, hstock⟩, hroute, hgiving⟩ := giving_of_ends
    (hT.route hsent (by rwa [List.length_map]) hlike hfragment hdecode)
  obtain ⟨hgathered, hgiven⟩ := gathered_of_keepAll hx hwhole h hsub hstock
  rw [hroute, hgiving, List.map_append]
  exact ⟨hsent', htraffic, hgathered, hgiven⟩

end Gathered

/-! ## On their way -/

/-- Some fragments of a message were routed, and the others that were handed in wait at the
shard. -/
structure Partway (x : Exchange) (shard : Nat) (limits : FragmentLimits) (whole : Envelope)
    (T : List Bytes → Exchange → Prop) (accepted done : List Task) (t : Traffic)
    (y : Exchange) : Prop where
  sent : T (done.map Task.raw) y
  traffic : y.view.traffic shard = t
  forward : t.forward = []
  parts : (done ++ (t.inHand ++ t.work)).Perm accepted
  gathered : x.Gathered shard limits whole done y

section Partway

variable {x y z : Exchange} {shard n slot : Nat} {limits : FragmentLimits} {whole f : Envelope}
  {raw : Bytes} {accepted done : List Task} {t t' : Traffic} {task : Task} {rest : List Task}
  {T : List Bytes → Exchange → Prop}

theorem Carrier.of_setTraffic {raws : List Bytes} (hT : x.Carrier shard whole n T) (h : T raws y)
    (hz : z.view = y.view.setTraffic shard t) : T raws z := by
  refine hT.congr h (bare_of_view hz) (mail_of_view hz) fun id hid => ?_
  rw [hz]
  exact if_neg hid

/-- Only what waits at the shard has changed. -/
theorem Partway.of_setTraffic (hT : x.Carrier shard whole n T)
    (h : x.Partway shard limits whole T accepted done t y)
    (hz : z.view = y.view.setTraffic shard t') (hassembler : z.assembler? = y.assembler?)
    (hforward : t'.forward = []) {accepted' : List Task}
    (hparts : (done ++ (t'.inHand ++ t'.work)).Perm accepted') :
    x.Partway shard limits whole T accepted' done t' z where
  sent := hT.of_setTraffic h.sent hz
  traffic := by rw [hz, View.traffic_setTraffic]
  forward := hforward
  parts := hparts
  gathered := h.gathered.congr (congrFun hassembler shard) (offline_of_view hz)

/-- At the start, nothing has come. -/
theorem partway_start (hx : x.Orderly) (hT : x.Carrier shard whole n T) {b : Assembler}
    (hb : x.assembler? shard = some b)
    (hcap : (whole.shares limits).length ≤ b.limits.cap.toNat)
    (hnew : b.pending.get? whole.messageId = none) :
    x.Partway shard limits whole T [] [] {} x where
  sent := hT.start
  traffic := hx.rest shard
  forward := rfl
  parts := List.Perm.refl []
  gathered := by
    have hgap : ([] : List Task).length < (whole.shares limits).length :=
      List.length_pos_iff.2 (whole.shares_ne_nil limits)
    have hholds : Assembler.Holds limits whole (places []) b :=
      ⟨hcap, fun i hi => absurd hi (Finset.notMem_empty i), Or.inl ⟨hnew, rfl⟩⟩
    exact .part hb hgap hholds rfl

/-- With room for all fragments there is room for the next one. -/
theorem enqueue_of_partway (hx : x.Orderly) (hT : x.Carrier shard whole n T)
    (hwork : x.view.CanWork shard n) (h : x.Partway shard limits whole T accepted done t y)
    (hless : accepted.length < n) (f : Envelope) (raw : Bytes) :
    ∃ z, y.enqueueEnvelope shard f raw = (.ok (), z) ∧
      x.Partway shard limits whole T (accepted ++ [inbound f raw]) done
        { t with work := t.work ++ [inbound f raw] } z := by
  -- the queue had room for all fragments, and fewer are in it
  have hroom : y.view.CanWork shard 1 := by
    obtain ⟨s, hs, hlistening, hfits⟩ := hwork
    rw [hx.rest shard] at hfits
    have hfits : 0 + n ≤ s.work.capacity := hfits
    have hlength := h.parts.length_eq
    simp only [List.length_append] at hlength
    refine ⟨s, (hT.shard? h.sent).trans hs, hlistening, ?_⟩
    rw [h.traffic]
    omega
  obtain ⟨z, hsubmit, hz⟩ := view_submit hroom (inbound f raw)
  have hassembler := y.assembler?_submit shard (inbound f raw)
  rw [hsubmit] at hassembler
  rw [h.traffic] at hz
  refine ⟨z, hsubmit, h.of_setTraffic hT hz hassembler h.forward ?_⟩
  have hmore := h.parts.append_right [inbound f raw]
  rwa [List.append_assoc, List.append_assoc] at hmore

/-- A processor takes a fragment. -/
theorem partway_take (hT : x.Carrier shard whole n T)
    (h : x.Partway shard limits whole T accepted done t y) (hwork : t.work = task :: rest)
    (hfree : t.inHand.length < y.processors) : x.Partway shard limits whole T accepted done
      { t with work := rest, inHand := t.inHand ++ [task] } (y.take shard) := by
  have hz := view_take (x := y) (by rw [h.traffic]; exact hwork) (by rwa [h.traffic])
  rw [h.traffic] at hz
  refine h.of_setTraffic hT hz (assembler?_take ..) h.forward ?_
  have hparts := h.parts
  rwa [hwork, ← List.singleton_append, ← List.append_assoc t.inHand] at hparts

/-- A fragment that a processor has put down is still to be routed, and the others wait. -/
theorem partway_putDown (hT : x.Carrier shard whole n T)
    (h : x.Partway shard limits whole T accepted done t y) (hslot : t.inHand[slot]? = some task) :
    T (done.map Task.raw) (y.putDown shard slot) ∧
      (y.putDown shard slot).view.traffic shard = { t with inHand := t.inHand.eraseIdx slot } ∧
      x.Gathered shard limits whole done (y.putDown shard slot) ∧
      (done ++ [task] ++ (t.inHand.eraseIdx slot ++ t.work)).Perm accepted := by
  have hslot' : (y.view.traffic shard).inHand[slot]? = some task := by
    rw [h.traffic]
    exact hslot
  have hz := view_putDown hslot'
  rw [h.traffic] at hz
  refine ⟨hT.of_setTraffic h.sent hz, by rw [hz, View.traffic_setTraffic],
    h.gathered.congr (congrFun (assembler?_putDown ..) shard) (offline_of_view hz), ?_⟩
  have hput := (cons_eraseIdx_perm hslot).append_right t.work
  rw [List.append_assoc]
  exact (hput.append_left done).trans h.parts

section Carried

variable (hx : x.Orderly) (hT : x.Carrier shard whole (whole.shares limits).length T)
  (hwhole : x.Joinable whole)

include hT

/-- Nothing that is done elsewhere is anything to the fragments that wait. -/
theorem partway_act_elsewhere (h : x.Partway shard limits whole T accepted done t y)
    {action : Action} (haction : action.serves = true) (helsewhere : action.place? ≠ some shard) :
    x.Partway shard limits whole T accepted done t (y.act action) := by
  obtain ⟨hsent, htraffic, hstock⟩ := hT.act h.sent haction helsewhere
  exact ⟨hsent, htraffic.trans h.traffic, h.forward, h.parts,
    h.gathered.congr (congrArg Stock.assembler hstock) (congrArg Stock.offline hstock)⟩

theorem partway_run_elsewhere (h : x.Partway shard limits whole T accepted done t y)
    {more : List Action}
    (hmore : ∀ action ∈ more, action.serves = true ∧ action.place? ≠ some shard) :
    x.Partway shard limits whole T accepted done t (y.run more) := by
  induction more generalizing y with
  | nil => exact h
  | cons action more ih =>
      obtain ⟨⟨haction, helsewhere⟩, hmore⟩ := List.forall_mem_cons.1 hmore
      exact ih (partway_act_elsewhere hT h haction helsewhere) hmore

theorem partway_wait (h : x.Partway shard limits whole T accepted done t y) (duration : Nat) :
    x.Partway shard limits whole T accepted done t (y.wait duration) :=
  ⟨hT.wait h.sent duration, h.traffic, h.forward, h.parts, h.gathered.congr rfl rfl⟩

/-- Whoever looks for forgotten fragments in time finds none of the message. -/
theorem partway_sweep (h : x.Partway shard limits whole T accepted done t y) (id : Nat)
    (hintime : ∀ b assembly, y.assembler? id = some b →
      b.pending.get? whole.messageId = some assembly → b.isExpired y.now assembly = false) :
    x.Partway shard limits whole T accepted done t (y.sweep id) := by
  have hview := view_sweep y id
  have hoffline : (y.sweep id).services.offline = y.services.offline := offline_of_view hview
  refine ⟨hT.congr h.sent (bare_of_view hview) (mail_of_view hview) fun id' _ => ?_,
    (traffic_of_view hview shard).trans h.traffic, h.forward, h.parts, ?_⟩
  · exact traffic_of_view hview id'
  · by_cases hid : id = shard
    · subst hid
      -- a sweep of the shard sweeps its assembler, and nothing else there
      have hswept : ∀ {b : Assembler}, y.assembler? id = some b →
          (y.sweep id).assembler? id = some (b.sweep y.now).2 := by
        intro b hb
        obtain ⟨s, hs, rfl⟩ := Option.map_eq_some_iff.1 hb
        rw [assembler?, sweep, shard?_mapShard, if_pos rfl, hs]
        rfl
      cases h.gathered with
      | @part b joined gap holds offline =>
          have hspares : Assembler.Spares whole.messageId b (.sweep y.now) :=
            fun assembly hassembly => hintime b assembly joined hassembly
          exact .part (hswept joined) gap (Assembler.holds_spares holds hspares)
            (hoffline.trans offline)
      | @all b kept joined full gone offline once =>
          refine .all (hswept joined) full ?_ (hoffline.trans offline) once
          rw [Assembler.get?_sweep fun assembly hassembly => ?_, gone]
          -- nothing of the message is pending, so there is nothing to forget
          exact hintime b assembly joined hassembly
    · refine h.gathered.congr ?_ hoffline
      rw [assembler?, sweep, shard?_mapShard, if_neg (Ne.symm hid)]
      rfl

include hx hwhole

/-- **A processor routes a fragment**, which is taken in once. -/
theorem partway_finish {fs : List Envelope} (hfs : fs = whole.fragments limits)
    {messageId : String} (hcourse : x.Incoming shard messageId fs accepted y)
    (h : x.Partway shard limits whole T accepted done t y)
    (hslot : t.inHand[slot]? = some task) :
    x.Partway shard limits whole T accepted (done ++ [task])
        { t with inHand := t.inHand.eraseIdx slot } (y.finish shard slot) ∧
      (y.putDown shard slot).giving shard task = [task.envelope] := by
  have hslot' : (y.view.traffic shard).inHand[slot]? = some task := by
    rw [h.traffic]
    exact hslot
  obtain ⟨hsent, htraffic, hgathered, hparts⟩ := partway_putDown hT h hslot
  have hmem : task ∈ accepted := by
    refine hparts.subset (List.mem_append_left _ ?_)
    exact List.mem_append_right _ List.mem_cons_self
  obtain ⟨f, raw, rfl, hdecode⟩ := hcourse.tasks hmem
  -- what was routed and this one are among those that were handed in, each of them once
  have hsub : ((done ++ [inbound f raw]).map Task.envelope).Subperm (whole.fragments limits) := by
    have hdone := (List.sublist_append_left (done ++ [inbound f raw])
      (t.inHand.eraseIdx slot ++ t.work)).map Task.envelope
    have hall := (hdone.subperm.trans (hparts.map Task.envelope).subperm).trans hcourse.subperm
    rwa [hfs] at hall
  obtain ⟨hsent', htraffic', hgathered', hgiving⟩ :=
    routed_fragment hx hT hwhole (length_lt_of_subperm hsub) hsent hgathered hsub hdecode
  rw [finish_eq_routeTask hslot']
  exact ⟨⟨hsent', htraffic'.trans htraffic, h.forward, hparts, hgathered'⟩, hgiving⟩

/-- **Whatever is done next**, the fragments come on. -/
theorem partway_act {fs : List Envelope} (hfs : fs = whole.fragments limits)
    {messageId : String} (hcourse : x.Incoming shard messageId fs accepted y)
    (h : x.Partway shard limits whole T accepted done t y) {action : Action}
    (haction : action.serves = true) :
    ∃ done' t', x.Partway shard limits whole T accepted done' t' (y.act action) := by
  have hsame : y.act action = y →
      ∃ done' t', x.Partway shard limits whole T accepted done' t' (y.act action) := by
    intro hact
    rw [hact]
    exact ⟨done, t, h⟩
  by_cases hplace : action.place? = some shard
  · cases action, hplace using Action.place_cases with
    | take =>
        by_cases hfree : t.inHand.length < y.processors
        · cases hwork : t.work with
          | nil => exact hsame (take_of_nil (by rw [h.traffic]; exact hwork))
          | cons task rest => exact ⟨_, _, partway_take hT h hwork hfree⟩
        · exact hsame (take_of_busy (by rwa [h.traffic]))
    | finish slot =>
        cases hslot : t.inHand[slot]? with
        | none => exact hsame (finish_of_none (by rw [h.traffic]; exact hslot))
        | some task => exact ⟨_, _, (partway_finish hx hT hwhole hfs hcourse h hslot).1⟩
    | relay =>
        -- nothing is handed over to this shard
        exact hsame (relay_of_nil (by rw [h.traffic]; exact h.forward))
  · exact ⟨done, t, partway_act_elsewhere hT h haction hplace⟩

/-- **Whatever happens**, the fragments come on. -/
theorem partway_of_incoming {b : Assembler} (hb : x.assembler? shard = some b)
    (hcap : (whole.shares limits).length ≤ b.limits.cap.toNat)
    (hnew : b.pending.get? whole.messageId = none)
    (hwork : x.view.CanWork shard (whole.shares limits).length)
    (h : x.Incoming shard whole.messageId (whole.fragments limits) accepted y) :
    ∃ done t, x.Partway shard limits whole T accepted done t y := by
  -- on what happened: more is handed in, something is done, time passes, or shards are swept
  induction h with
  | start => exact ⟨_, _, partway_start hx hT hb hcap hnew⟩
  | @handIn accepted y f raw h decode once ih =>
      obtain ⟨done, t, hpartway⟩ := ih
      obtain ⟨z, hz, hnext⟩ :=
        enqueue_of_partway hx hT hwork hpartway (length_lt_of_subperm once) f raw
      rw [hz]
      exact ⟨_, _, hnext⟩
  | act h serves ih =>
      obtain ⟨done, t, hpartway⟩ := ih
      exact partway_act hx hT hwhole rfl h hpartway serves
  | wait h duration ih =>
      obtain ⟨done, t, hpartway⟩ := ih
      exact ⟨done, t, partway_wait hT hpartway duration⟩
  | sweep h id inTime ih =>
      obtain ⟨done, t, hpartway⟩ := ih
      exact ⟨done, t, partway_sweep hT hpartway id inTime⟩

/-! ## To the end -/

/-- **However far the fragments have come, they can be brought to their end.** -/
theorem settles_of_partway {fs : List Envelope} (hfs : fs = whole.fragments limits)
    {messageId : String} (hcourse : x.Incoming shard messageId fs accepted y)
    (h : x.Partway shard limits whole T accepted done t y) :
    ∃ more : List Action, (∀ action ∈ more, action.serves = true) ∧ (y.run more).Settled := by
  -- on the steps that are left at the shard: a fragment is taken, and then it is routed
  induction htodo : 2 * t.work.length + t.inHand.length using Nat.strong_induction_on
    generalizing done t y with
  | _ todo ih =>
      have hnext : ∀ action : Action, action.serves = true →
          (∃ more : List Action, (∀ action ∈ more, action.serves = true) ∧
            ((y.act action).run more).Settled) →
          ∃ more : List Action, (∀ action ∈ more, action.serves = true) ∧
            (y.run more).Settled := by
        rintro action haction ⟨more, hmore, hsettled⟩
        exact ⟨action :: more, List.forall_mem_cons.2 ⟨haction, hmore⟩, hsettled⟩
      cases hinHand : t.inHand with
      | cons task inHand =>
          have hslot : t.inHand[0]? = some task := by
            rw [hinHand]
            rfl
          have hfinish := (partway_finish hx hT hwhole hfs hcourse h hslot).1
          refine hnext (.finish shard 0) rfl (ih _ ?_ (hcourse.act rfl) hfinish rfl)
          rw [← htodo, hinHand]
          simp only [List.eraseIdx_zero, List.tail_cons, List.length_cons]
          omega
      | nil =>
          cases hwork : t.work with
          | cons task rest =>
              have hfree : t.inHand.length < y.processors := by
                rw [hinHand]
                exact Nat.lt_of_lt_of_le Nat.zero_lt_one (Nat.le_max_left 1 _)
              have htake := partway_take hT h hwork hfree
              refine hnext (.take shard) rfl (ih _ ?_ (hcourse.act rfl) htake rfl)
              rw [← htodo, hwork]
              simp only [List.length_append, List.length_cons, List.length_nil]
              omega
          | nil =>
              -- all fragments are routed, and what they sent can come to its end elsewhere
              obtain ⟨more, hmore, hidle, hnothing⟩ := hT.settles h.sent
              refine ⟨more, fun action hmem => (hmore action hmem).1, fun id => ?_, hnothing⟩
              by_cases hid : id = shard
              · rw [hid, (partway_run_elsewhere hT h hmore).traffic]
                exact Traffic.ext hwork h.forward hinHand
              · exact hidle id hid

end Carried

end Partway

/-- What a message has come to that came in at a shard in fragments. -/
structure JoinedOnce (x : Exchange) (shard : Nat) (whole : Envelope) (raws : List Bytes)
    (y : Exchange) : Prop where
  /-- For everybody it is for who is away, one unread record of the message was kept, and nothing
  else was. -/
  away : ∃ kept, y.services.offline = x.services.offline ++ kept ∧
    (∀ identity ∈ x.targets whole, (∀ id, x.holder? id identity = none) →
      ∃ now, kept.filter (·.target = identity)
        = [{ messageId := whole.messageId, sender := whole.sender, target := identity
             content := whole.content, isRead := false, createdAt := now }]) ∧
    ∀ record ∈ kept, record.target ∈ x.targets whole ∧ ∀ id, x.holder? id record.target = none
  /-- No fragment of it is left at the shard. -/
  gone : ∃ a, y.assembler? shard = some a ∧ a.pending.get? whole.messageId = none
  /-- Whoever it is for and is connected was sent every fragment once, and has taken those it had
  room for. -/
  connected : ∀ id identity session, identity ∈ x.targets whole →
    x.holder? id identity = some session →
    ∃ sent : List Bytes, sent.Perm raws ∧ y.mail session = (x.mail session).map (·.accept sent)
  /-- So one with room for all of them has received every fragment once. -/
  complete : ∀ id identity session b, identity ∈ x.targets whole →
    x.holder? id identity = some session → x.mail session = some b → raws.length ≤ b.room →
    ∃ received : List Bytes, received.Perm raws ∧ y.mail session = some (b.add received)
  /-- Nobody else has received anything. -/
  others : ∀ session, (∀ id identity, x.holder? id identity = some session →
    identity ∉ x.targets whole) → y.mail session = x.mail session

section Outcome

variable {x y : Exchange} {shard : Nat} {limits : FragmentLimits} {whole e : Envelope}
  {fresh : String} {stamp : Int64} {fs : List Envelope} {accepted done : List Task} {t : Traffic}
  {T : List Bytes → Exchange → Prop}

/-- When everything has come to rest, the fragments have come to what they are to come to. -/
theorem joinedOnce_of_partway (hx : x.Orderly)
    (hT : x.Carrier shard whole (whole.shares limits).length T)
    (h : x.Partway shard limits whole T accepted done t y) (hsettled : y.Settled)
    (hall : accepted.length = (whole.shares limits).length) :
    x.JoinedOnce shard whole (accepted.map Task.raw) y := by
  have hidle : t = {} := h.traffic.symm.trans (hsettled.1 shard)
  -- nothing waits any more, so all that were handed in were routed
  have hparts : done.Perm accepted := by
    have hparts := h.parts
    rwa [hidle, List.append_nil, List.append_nil] at hparts
  have hraws := hparts.map Task.raw
  obtain ⟨sent, hmailed, hsent⟩ := hT.arrived h.sent hsettled
  have hconnected : ∀ id identity session, identity ∈ x.targets whole →
      x.holder? id identity = some session → ∃ sent : List Bytes,
        sent.Perm (accepted.map Task.raw) ∧
        y.mail session = (x.mail session).map (·.accept sent) := by
    intro id identity session hmem hheld
    have hperm := hsent id identity session hheld
    rw [if_pos hmem] at hperm
    exact ⟨_, hperm.trans hraws, hmailed.held hheld⟩
  cases h.gathered with
  | part joined gap holds offline =>
      -- all of them came, so no gap can be left
      rw [hparts.length_eq, hall] at gap
      exact absurd gap (Nat.lt_irrefl _)
  | @all b kept joined full gone offline once =>
      refine ⟨⟨kept, offline, fun identity hmem haway => ?_, fun record hrecord => ?_⟩,
        ⟨b, joined, gone⟩, hconnected, ?_, fun session hnot => ?_⟩
      · exact once.each identity (hx.mem_absent.2 ⟨hmem, haway⟩)
      · exact hx.mem_absent.1 (once.only record hrecord)
      · intro id identity session b hmem hheld hb hroom
        obtain ⟨received, hperm, hmail⟩ := hconnected id identity session hmem hheld
        refine ⟨received, hperm, ?_⟩
        rw [hmail, hb, Option.map_some, Mailbox.accept_of_room]
        rw [hperm.length_eq]
        exact hroom
      · by_cases hheld : ∃ id identity, x.holder? id identity = some session
        · obtain ⟨id, identity, hheld⟩ := hheld
          have hperm := hsent id identity session hheld
          rw [if_neg (hnot id identity hheld)] at hperm
          rw [hmailed.held hheld, List.perm_nil.1 hperm]
          simp only [Mailbox.accept_nil, Option.map_id']
        · exact hmailed.others fun id identity h => hheld ⟨id, identity, h⟩

theorem ComesInParts.sendable (h : x.ComesInParts shard limits fresh stamp e fs) :
    x.Sendable e := by
  refine ⟨h.orderly, h.recipient, h.person, fun hnil => h.away ?_⟩
  rw [hnil]
  rfl

/-- **A message that comes in as fragments is kept once for everybody who is away.** However many of
those it is for are away, whether its fragments are published or not, and in whatever order they
come in at a shard and are routed, every one of them is taken in once. They can always be brought to
their end, and when all of them are there, everybody who is away has one record of the message, and
everybody who is connected was sent every fragment once. -/
theorem joinedOnce_of_incoming (hparts : x.ComesInParts shard limits fresh stamp e fs)
    (hwork : x.view.CanWork shard fs.length)
    (hroom : x.HasRoom shard (x.due (fs.map Envelope.encode) (x.targets e)))
    (hlossless : x.Mute ∨ x.services.publishing.IsLossless fs.length x.pool.consumer)
    (h : x.Incoming shard (e.completed fresh stamp).messageId fs accepted y) :
    (∀ f raw, ((accepted ++ [inbound f raw]).map Task.envelope).Subperm fs →
      (y.enqueueEnvelope shard f raw).1 = .ok ()) ∧
    (∀ slot task, (y.view.traffic shard).inHand[slot]? = some task →
      y.finish shard slot = (y.putDown shard slot).routeTask shard task ∧
      (y.putDown shard slot).giving shard task = [task.envelope]) ∧
    (∃ more : List Action, (∀ action ∈ more, action.serves = true) ∧ (y.run more).Settled) ∧
    (y.Settled → accepted.length = fs.length →
      x.JoinedOnce shard (e.completed fresh stamp) (accepted.map Task.raw) y) := by
  obtain ⟨hfs, -⟩ := Envelope.eq_fragments_of_split hparts.split
  obtain ⟨b, hb, hcap, hnew⟩ := hparts.joining
  have hlength : fs.length = ((e.completed fresh stamp).shares limits).length := by
    rw [hfs, Envelope.length_fragments]
  have hwhole : x.Joinable (e.completed fresh stamp) :=
    ⟨hparts.signal, Envelope.completed_messageId_ne hparts.named stamp e,
      Envelope.fits_of_length hparts.measured, hparts.away⟩
  have hsendable : x.Sendable (e.completed fresh stamp) :=
    ⟨hparts.orderly, hparts.recipient, hparts.person, hparts.sendable.targets⟩
  have hcount : (fs.map Envelope.encode).length
      = ((e.completed fresh stamp).shares limits).length := (List.length_map _).trans hlength
  have hlossless' : x.Mute ∨ x.services.publishing.IsLossless (fs.map Envelope.encode).length
      x.pool.consumer := by rwa [List.length_map]
  obtain ⟨T, hT⟩ := exists_carrier hsendable hparts.away hroom hlossless'
  rw [hcount] at hT
  rw [hlength] at hwork hcap ⊢
  obtain ⟨done, t, hpartway⟩ := partway_of_incoming hparts.orderly hT hwhole hb hcap hnew hwork
    (hfs ▸ h)
  refine ⟨fun f raw honce => ?_, fun slot task hslot => ?_,
    settles_of_partway hparts.orderly hT hwhole hfs h hpartway,
    joinedOnce_of_partway hparts.orderly hT hpartway⟩
  · have hless := length_lt_of_subperm (hfs ▸ honce)
    obtain ⟨z, hz, -⟩ := enqueue_of_partway hparts.orderly hT hwork hpartway hless f raw
    rw [hz]
  · refine ⟨finish_eq_routeTask hslot, ?_⟩
    rw [hpartway.traffic] at hslot
    exact (partway_finish hparts.orderly hT hwhole hfs h hpartway hslot).2

end Outcome

/-- Ann splits her messages into small shares. -/
def smallShares : FragmentLimits := FragmentLimits.make 60 8 1000

/-- A message for the crew comes in at the first shard in two fragments, while Cho is away. -/
theorem exists_comesInParts_crew : ∃ first second : Envelope,
    withCrew.ComesInParts 0 smallShares "m2" 7 toCrew [first, second] := by
  have hend :
      ((toCrew.completed "m2" 7).encode.drop smallShares.size).drop smallShares.size = [] := by
    rw [List.drop_drop]
    exact List.drop_of_length_le (by decide)
  have hshares : (toCrew.completed "m2" 7).shares smallShares
      = [(toCrew.completed "m2" 7).encode.take smallShares.size,
        ((toCrew.completed "m2" 7).encode.drop smallShares.size).take smallShares.size] := by
    rw [Envelope.shares, chunks_cons smallShares.size_pos (Envelope.encode_ne_nil _),
      chunks_cons smallShares.size_pos (by decide), hend, chunks_nil]
  obtain ⟨first, second, hfs⟩ : ∃ first second : Envelope,
      (toCrew.completed "m2" 7).fragments smallShares = [first, second] := by
    rw [Envelope.fragments, hshares]
    exact ⟨_, _, rfl⟩
  refine ⟨first, second, orderly_withCrew, by decide, fun h => absurd h (by decide), rfl, ?_, ?_,
    by decide, fits_toCrew, ⟨_, rfl, ?_, rfl⟩⟩
  · rw [targets_toCrew]
    decide
  · rw [Envelope.split_eq, if_neg (by decide), hfs]
  · show 2 ≤ _
    decide

/-- There is room for two frames wherever they are to go. -/
theorem hasRoom_crew_two {frames : List Bytes} (hframes : frames.length = 2) :
    withCrew.HasRoom 0 (withCrew.due frames (withCrew.targets toCrew)) := by
  have hdue : ∀ id, (withCrew.due frames (withCrew.targets toCrew) id).length
      = 2 * ["bob", "cho"].countP fun target => (withCrew.holder? id target).isSome := by
    intro id
    rw [length_due, hframes, targets_toCrew]
  refine ⟨⟨_, rfl, by decide⟩, ?_, ?_⟩
  · intro shard hne hmem
    rcases shard with _ | _ | shard
    · exact absurd rfl hne
    · rw [hdue]
      exact ⟨_, rfl, by decide⟩
    · exact absurd (List.length_eq_zero_iff.1 (hdue _)) hmem
  · intro shard hne hmem
    rcases shard with _ | _ | shard
    · exact absurd rfl hne
    · rw [hdue]
      exact ⟨_, rfl, by decide⟩
    · exact absurd (List.length_eq_zero_iff.1 (hdue _)) hmem

theorem joinedOnce_of_incoming_crew : ∃ first second x y history,
    toCrew.split smallShares "m2" 7 = .ok [first, second] ∧
    withCrew.enqueueEnvelope 0 second second.encode = (.ok (), x) ∧
    x.enqueueEnvelope 0 first first.encode = (.ok (), y) ∧ (y.run history).Settled ∧
    withCrew.JoinedOnce 0 toCrew [second.encode, first.encode] (y.run history) := by
  obtain ⟨first, second, hparts⟩ := exists_comesInParts_crew
  have hwork : withCrew.view.CanWork 0 2 := ⟨_, rfl, by decide⟩
  have hroom : withCrew.HasRoom 0
      (withCrew.due ([first, second].map Envelope.encode) (withCrew.targets toCrew)) :=
    hasRoom_crew_two rfl
  have hlossless : withCrew.Mute ∨
      withCrew.services.publishing.IsLossless 2 withCrew.pool.consumer := Or.inr (.off _)
  obtain ⟨hfs, -⟩ := Envelope.eq_fragments_of_split hparts.split
  have hdecode : ∀ f ∈ [first, second], Envelope.decode f.encode = .ok f := by
    intro f hf
    rw [hfs] at hf
    have hfits : (toCrew.completed "m2" 7).encode.length < 256 ^ 8 := fits_toCrew
    exact Envelope.decode_encode (Envelope.fits_of_mem_fragments hfits hf)
  have hstart : withCrew.Incoming 0 (toCrew.completed "m2" 7).messageId [first, second] []
      withCrew := .start
  have hsecond : (([] ++ [inbound second second.encode]).map Task.envelope).Subperm
      [first, second] := (List.sublist_cons_self first [second]).subperm
  have hboth : (([] ++ [inbound second second.encode] ++ [inbound first first.encode]).map
      Task.envelope).Subperm [first, second] := (List.Perm.swap first second []).subperm
  have honce := hstart.handIn (hdecode second (by simp)) hsecond
  have htwice := honce.handIn (hdecode first (by simp)) hboth
  obtain ⟨haccepted, -, -, -⟩ := joinedOnce_of_incoming hparts hwork hroom hlossless hstart
  obtain ⟨haccepted', -, -, -⟩ := joinedOnce_of_incoming hparts hwork hroom hlossless honce
  obtain ⟨-, -, ⟨history, hhistory, hsettled⟩, -⟩ :=
    joinedOnce_of_incoming hparts hwork hroom hlossless htwice
  obtain ⟨-, -, -, hjoined⟩ := joinedOnce_of_incoming hparts hwork hroom hlossless
    (htwice.run hhistory)
  exact ⟨first, second, _, _, history, hparts.split,
    Prod.ext (haccepted second second.encode hsecond) rfl,
    Prod.ext (haccepted' first first.encode hboth) rfl, hsettled, hjoined hsettled rfl⟩

end Exchange

end Switchboard
