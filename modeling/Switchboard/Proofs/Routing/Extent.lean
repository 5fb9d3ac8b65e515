import Switchboard.Proofs.Routing.Outbound

/-!
# How far routing reaches

Whatever a task is and whatever becomes of it, routing it does only so many kinds of things to the
exchange: it asks the services, draws identities, joins fragments, asks the assistant, counts, keeps
records, sends frames to connections, hands frames to other shards, and publishes. A relation between
an exchange and a later one that holds of each of these, and of one after another, holds of the
routing of every task (`keeps_routeTask`). Parts that only ask do the first few, parts that send
nothing some more: `Rests`, `Idles` and `Bears` are what a relation needs to hold of each kind. A
relation may hold of sending some frames and not of others; then it holds of the tasks that send no
others (`Suits`).

What is kept depends on what the errand remembers of a fragment, which is not part of the exchange.
So the walk through the parts is done once for relations between errands (`Asks`, `Carries`,
`leads_routeTask`), and those between exchanges are a case of it (`Bears.carries`).
-/

namespace Switchboard

/-- The frame that an event brings. -/
def BrokerEvent.frame? : BrokerEvent → Option Bytes
  | .direct _ frame => some frame
  | .group _ _ frame => some frame
  | .presence _ => none

namespace Routing

variable {α β : Type} {R : Exchange → Exchange → Prop} {S : Errand → Errand → Prop}
  {P : Bytes → Prop} {s : Errand}

/-- A relation that holds of whatever parts do that only ask. -/
structure Rests (R : Exchange → Exchange → Prop) : Prop where
  refl : ∀ x, R x x
  trans : ∀ {x y z}, R x y → R y z → R x z
  attempt : ∀ x call, R x (x.attempt call).2
  fresh : ∀ x, R x x.freshId.2
  assemble : ∀ x shard assembler, R x (x.mapShard shard fun s => { s with assembler })
  ask : ∀ (x : Exchange) prompt, R x (x.mapPool fun p => { p with prompts := p.prompts ++ [prompt] })

/-- A relation that holds of whatever parts do that send nothing. -/
structure Idles (R : Exchange → Exchange → Prop) : Prop extends Rests R where
  count : ∀ x shard f, R x (x.mapCounters shard f)
  persist : ∀ (x : Exchange) offline, R x { x with services.offline := offline }

/-- A relation that holds of whatever the parts of routing do with frames of a kind. -/
structure Bears (P : Bytes → Prop) (R : Exchange → Exchange → Prop) : Prop extends Idles R where
  sendTo : ∀ x session {frame}, P frame → R x (x.sendTo session frame).2
  handOver : ∀ x owner target {frame}, P frame → R x (x.handOver owner target frame).2
  publish : ∀ {x event y}, (∀ frame, event.frame? = some frame → P frame) →
    x.publish event = some y → R x y

/-- The frames that a message goes out in are of a kind, whatever the services are. -/
def Cuts (P : Bytes → Prop) (x : Exchange) (shard : Nat) (e : Envelope) (raw : Bytes) : Prop :=
  ∀ services copy given frames s', (outboundFrames shard e raw).run.run
      { exchange := { x with services }, copy, given } = (.ok frames, s') →
    ∀ frame ∈ frames, P frame

/-- The frames that a task may send are of a kind: what another shard handed over and notices are
sent as they are, and messages in their frames. -/
structure Suits (P : Bytes → Prop) (x : Exchange) (shard : Nat) (task : Task) : Prop where
  whole : task.origin ≠ .inbound ∨ task.envelope.isNotice = true → P task.raw
  cut : task.origin = .inbound → task.envelope.isNotice = false →
    Cuts P x shard task.envelope task.raw

/-- A part leaves an exchange that stands in a relation to the one it found, whether it comes to its
end or stops. -/
def Keeps (R : Exchange → Exchange → Prop) (part : Routing α) (s : Errand) : Prop :=
  R s.exchange (part.run.run s).2.exchange

/-- A part leaves an errand that stands in a relation to the one it found. -/
def Leads (S : Errand → Errand → Prop) (part : Routing α) (s : Errand) : Prop :=
  S s (part.run.run s).2

/-- A relation between errands that holds of whatever parts do that only ask services. -/
structure Asks (S : Errand → Errand → Prop) : Prop where
  refl : ∀ s, S s s
  trans : ∀ {s s' s''}, S s s' → S s' s'' → S s s''
  attempt : ∀ s call, S s { s with exchange := (s.exchange.attempt call).2 }
  fresh : ∀ s, S s { s with exchange := s.exchange.freshId.2 }

/-- A relation between errands that holds of whatever the parts of routing do for a message at a
shard, with frames of a kind. -/
structure Carries (P : Bytes → Prop) (S : Errand → Errand → Prop) (shard : Nat) (e : Envelope) :
    Prop extends Asks S where
  count : ∀ s id f, S s { s with exchange := s.exchange.mapCounters id f }
  sendTo : ∀ s session {frame}, P frame →
    S s { s with exchange := (s.exchange.sendTo session frame).2 }
  handOver : ∀ s owner target {frame}, P frame →
    S s { s with exchange := (s.exchange.handOver owner target frame).2 }
  publish : ∀ {s event x}, (∀ frame, event.frame? = some frame → P frame) →
    s.exchange.publish event = some x → S s { s with exchange := x }
  store : ∀ s target, Leads S (store shard e target) s

/-- A task is a message for the assistant. -/
structure IsPrompt (x : Exchange) (task : Task) : Prop where
  inbound : task.origin = .inbound
  addressed : task.envelope.isNotice = false
  direct : task.envelope.deliveryKind = .direct
  assistant : x.services.isAssistant task.envelope.recipient = true

/-- One part after another: the second one runs on what the first one left, unless that stopped. -/
theorem run_bind (part : Routing α) (next : α → Routing β) (s : Errand) :
    (part >>= next).run.run s
      = match part.run.run s with
        | (.ok a, s') => (next a).run.run s'
        | (.error stop, s') => (.error stop, s') := by
  cases hrun : part.run.run s with
  | mk result s' =>
      cases result with
      | ok a => exact Runs.run_bind hrun next
      | error stop => exact run_bind_of_error hrun next

/-! ## Parts that only ask -/

/-- A step leaves what it left, whether it succeeds or not. -/
theorem leads_step {ε : Type} {wrap : ε → Stop} {f : Exchange → Except ε α × Exchange}
    (h : S s { s with exchange := (f s.exchange).2 }) : Leads S (step wrap f) s := by
  rw [Leads, step, run_get_bind]
  cases hf : f s.exchange with
  | mk result x =>
      rw [hf] at h
      cases result with
      | ok a => exact h
      | error e => exact h

theorem leads_change {f : Exchange → Exchange} (h : S s { s with exchange := f s.exchange }) :
    Leads S (change f) s := h

/-- A call of a service changes nothing but the services. -/
theorem eq_of_call {c : ServiceCall} {s' : Errand} (hrun : (call c).run.run s = (.ok (), s')) :
    ∃ services, s' = { s with exchange := { s.exchange with services } } := by
  rw [call, step, run_get_bind] at hrun
  cases hcall : s.exchange.attempt c with
  | mk result x =>
      rw [hcall] at hrun
      refine ⟨x.services, ?_⟩
      obtain rfl : { s.exchange with services := (s.exchange.services.attempt c).2 } = x :=
        congrArg Prod.snd hcall
      cases result with
      | ok u => exact (congrArg Prod.snd hrun).symm
      | error stop => cases congrArg Prod.fst hrun

section Ask

variable (h : Asks S)

include h

/-- **What holds of two parts holds of one after the other**, also if the first one stops. -/
theorem Asks.bind {part : Routing α} {next : α → Routing β} (hpart : Leads S part s)
    (hnext : ∀ a s', part.run.run s = (.ok a, s') → Leads S (next a) s') :
    Leads S (part >>= next) s := by
  rw [Leads, run_bind]
  rw [Leads] at hpart
  cases hrun : part.run.run s with
  | mk result s' =>
      rw [hrun] at hpart
      cases result with
      | ok a => exact h.trans hpart (hnext a s' hrun)
      -- the first part stopped, and what it left is what there is
      | error stop => exact hpart

theorem leads_pure (a : α) : Leads S (pure a) s := h.refl _

theorem Asks.get_bind {next : Errand → Routing β} (hnext : Leads S (next s) s) :
    Leads S (get >>= next) s :=
  h.bind (h.refl _) fun a s' hrun => by
    cases hrun
    exact hnext

theorem Asks.exchange_bind {next : Exchange → Routing β} (hnext : Leads S (next s.exchange) s) :
    Leads S (exchange >>= next) s :=
  h.bind (h.refl _) fun a s' hrun => by
    cases hrun
    exact hnext

theorem leads_call (c : ServiceCall) : Leads S (call c) s := leads_step (h.attempt _ _)

theorem leads_freshId : Leads S freshId s := h.fresh _

theorem leads_isOnline (target : String) : Leads S (isOnline target) s :=
  h.bind (leads_call h _) fun _ _ _ => h.exchange_bind (leads_pure h _)

/-- To make frames of a message takes an identity at most. -/
theorem leads_outboundFrames (shard : Nat) (e : Envelope) (raw : Bytes) :
    Leads S (outboundFrames shard e raw) s := by
  refine h.exchange_bind ?_
  cases s.exchange.shard? shard with
  | none => exact leads_pure h _
  | some t =>
      dsimp only
      split
      · exact leads_pure h _
      · split
        · refine h.bind (leads_freshId h) fun fresh s' _ => ?_
          split
          · exact leads_pure h _
          · exact h.refl _
        · refine h.bind (leads_pure h _) fun fresh s' _ => ?_
          split
          · exact leads_pure h _
          · exact h.refl _

end Ask

/-! ## Parts that send -/

section Carry

variable {shard : Nat} {e : Envelope} {frames : List Bytes} {raw : Bytes}
  (h : Carries P S shard e)

include h

/-- Sending stops at the first frame that is refused, and counts it. -/
theorem leads_sendAll (session : Session) (hframes : ∀ frame ∈ frames, P frame) :
    Leads S (sendAll shard session frames) s := by
  induction frames generalizing s with
  | nil => exact leads_pure h.toAsks _
  | cons frame frames ih =>
      obtain ⟨hframe, hframes⟩ := List.forall_mem_cons.1 hframes
      have hsent := h.sendTo s session hframe
      refine h.get_bind ?_
      cases hsend : s.exchange.sendTo session frame with
      | mk result x =>
          rw [hsend] at hsent
          cases result with
          | ok u => exact h.bind hsent fun _ s' hrun => ih hframes
          | error fault =>
              -- the refused frame is counted before the fault is passed on
              have hcounted := h.trans hsent (h.count _ shard fun c =>
                { c with dropped := c.dropped + 1 })
              exact h.bind hcounted fun _ _ _ => h.refl _

theorem leads_write (session : Session) (hframes : ∀ frame ∈ frames, P frame) :
    Leads S (write shard session frames) s :=
  h.bind (leads_sendAll h session hframes) fun _ _ _ => leads_change (h.count _ _ _)

/-- Events that are all taken were published one after another. -/
theorem carries_publishAll {events : List BrokerEvent} {x : Exchange}
    (hevents : ∀ event ∈ events, ∀ frame, event.frame? = some frame → P frame)
    (hall : s.exchange.publishAll events = some x) : S s { s with exchange := x } := by
  induction events generalizing s with
  | nil =>
      obtain rfl := Option.some.inj hall
      exact h.refl _
  | cons event events ih =>
      obtain ⟨hevent, hevents⟩ := List.forall_mem_cons.1 hevents
      rw [Exchange.publishAll] at hall
      cases hone : s.exchange.publish event with
      | none => rw [hone] at hall; cases hall
      | some y =>
          rw [hone] at hall
          exact h.trans (h.publish hevent hone) (ih (s := { s with exchange := y }) hevents hall)

/-- Publishing frames, each in an event of its own. -/
theorem leads_published {event : Bytes → BrokerEvent}
    (hevent : ∀ frame, (event frame).frame? = some frame) (hframes : ∀ frame ∈ frames, P frame) :
    Leads S (published (frames.map event)) s := by
  refine h.get_bind ?_
  cases hall : s.exchange.publishAll (frames.map event) with
  | none => exact leads_pure h.toAsks _
  | some y =>
      refine h.bind (carries_publishAll h ?_ hall) fun _ _ _ => leads_pure h.toAsks _
      intro e he frame hframe
      obtain ⟨frame', hmem, rfl⟩ := List.mem_map.1 he
      obtain rfl := Option.some.inj ((hevent frame').symm.trans hframe)
      exact hframes _ hmem

/-- Handing over stops at the first frame that is refused. -/
theorem leads_forward (owner : Nat) (target : String) (hframes : ∀ frame ∈ frames, P frame) :
    Leads S (forward owner target frames) s := by
  induction frames generalizing s with
  | nil => exact leads_pure h.toAsks _
  | cons frame frames ih =>
      obtain ⟨hframe, hframes⟩ := List.forall_mem_cons.1 hframes
      exact h.bind (leads_step (h.handOver _ _ _ hframe)) fun _ _ _ => ih hframes

/-- A target is sent the frames of the message or has it kept, and nothing else. -/
theorem leads_deliver (target : String) (hframes : ∀ frame ∈ frames, P frame) :
    Leads S (deliver shard e target frames) s := by
  refine h.bind (leads_isOnline h.toAsks target) fun online s' _ => ?_
  split
  · refine h.exchange_bind ?_
    split
    · -- the connection is here: the frames are published if a broker takes them, else written
      refine h.bind (leads_published h (fun _ => rfl) hframes) fun taken s' _ => ?_
      split
      · exact leads_pure h.toAsks _
      · exact leads_write h _ hframes
    · exact leads_forward h _ target hframes
    · exact h.store _ target
  · exact h.store _ target

/-- After a message was published, it is kept or nothing is done. -/
theorem leads_settle (target : String) : Leads S (settle shard e target) s := by
  refine h.bind (leads_isOnline h.toAsks target) fun online s' _ => ?_
  refine h.exchange_bind ?_
  split
  · exact leads_pure h.toAsks _
  · exact h.store _ target

omit h in
/-- What is attempted is done, whatever becomes of it. -/
theorem run_attempt_snd (part : Routing Unit) (s : Errand) :
    ((attempt part).run.run s).2 = (part.run.run s).2 := by
  have hrun : (part : StateM Errand (Except Stop Unit)) s = part.run.run s := rfl
  simp only [attempt, tryCatch, tryCatchThe, MonadExceptOf.tryCatch, ExceptT.tryCatch, ExceptT.mk,
    ExceptT.run, StateT.run, Bind.bind, StateT.bind]
  rw [hrun]
  cases part.run.run s with
  | mk result s' =>
      cases result with
      | ok a => rfl
      | error stop =>
          cases stop with
          | fault fault => rfl
          | crash => rfl

/-- What is done for each target is done, one after another, however many of them fail. -/
theorem leads_forEach {part : String → Routing Unit} (hpart : ∀ target s, Leads S (part target) s)
    (targets : List String) : Leads S (forEach part targets) s := by
  induction targets generalizing s with
  | nil => exact leads_pure h.toAsks _
  | cons target targets ih =>
      refine h.bind ?_ fun _ _ _ => ih
      rw [Leads, run_attempt_snd]
      exact hpart target s

/-- A frame that was handed over is sent as it is. -/
theorem leads_routeForwarded (target : String) (hraw : P raw) :
    Leads S (routeForwarded shard target e raw) s := by
  refine h.exchange_bind ?_
  split
  · exact leads_write h _ (List.forall_mem_singleton.2 hraw)
  · refine h.bind (leads_isOnline h.toAsks target) fun online s' _ => ?_
    split
    · exact leads_change (h.count _ _ _)
    · exact h.store _ target

/-- A message for one identity is sent in its frames, unless it is for the assistant. -/
theorem leads_routeDirect (hcuts : Cuts P s.exchange shard e raw)
    (hprompt : s.exchange.services.isAssistant e.recipient = true →
      Leads S (routeToAssistant shard e) s) : Leads S (routeDirect shard e raw) s := by
  refine h.exchange_bind ?_
  split
  · next hassistant => exact hprompt hassistant
  · exact h.bind (leads_outboundFrames h.toAsks shard e raw) fun frames s' hrun =>
      leads_deliver h _ (hcuts _ _ _ frames s' hrun)

/-- A message for a group is sent in its frames, whoever the members are. -/
theorem leads_routeGroup (hcuts : Cuts P s.exchange shard e raw) :
    Leads S (routeGroup shard e raw) s := by
  refine h.bind (leads_call h.toAsks _) fun _ s' hcall => ?_
  -- only the services changed, so the message is cut into the frames that it was to be cut into
  obtain ⟨services, rfl⟩ := eq_of_call hcall
  refine h.exchange_bind ?_
  dsimp only
  split
  · exact leads_pure h.toAsks _
  · refine h.bind (leads_outboundFrames h.toAsks shard e raw) fun frames s' hrun => ?_
    have hframes := hcuts _ _ _ frames s' hrun
    refine h.bind (leads_published h (fun _ => rfl) hframes) fun taken s' _ => ?_
    split
    · exact leads_forEach h (fun target s => leads_settle h target) _
    · exact leads_forEach h (fun target s => leads_deliver h target hframes) _

/-- A notice is sent as it is, however many connections there are. -/
theorem carries_broadcast (s : Errand) (id : Nat) {frame : Bytes} (hframe : P frame) :
    S s { s with exchange := s.exchange.broadcast id frame } := by
  rw [Exchange.broadcast]
  generalize s.exchange.audience id = sessions
  induction sessions generalizing s with
  | nil => exact h.refl _
  | cons session sessions ih => exact h.trans (h.sendTo _ session hframe) (ih _)

omit h in
/-- Whatever kind a task is of, what it sends is what it may send. -/
theorem leads_route {task : Task} (h : Carries P S shard task.envelope)
    (htask : Suits P s.exchange shard task)
    (hprompt : IsPrompt s.exchange task → Leads S (routeToAssistant shard task.envelope) s) :
    Leads S (route shard task) s := by
  rw [route]
  split
  · next target horigin =>
      refine leads_routeForwarded h _ (htask.whole (Or.inl ?_))
      rw [horigin]
      exact Origin.noConfusion
  · next horigin =>
      split
      · next hnotice => exact carries_broadcast h _ _ (htask.whole (Or.inr hnotice))
      · next hnotice =>
          have haddressed := Bool.eq_false_iff.2 hnotice
          have hcuts := htask.cut horigin haddressed
          split
          · next hdirect =>
              exact leads_routeDirect h hcuts fun hassistant =>
                hprompt ⟨horigin, haddressed, hdirect, hassistant⟩
          · exact leads_routeGroup h hcuts

omit h in
/-- **What holds of each thing that routing does holds of routing a task.** -/
theorem leads_routeTask {x : Exchange} {task : Task} (h : Carries P S shard task.envelope)
    (htask : Suits P x shard task)
    (hprompt : IsPrompt x task →
      Leads S (routeToAssistant shard task.envelope) { exchange := x, copy := .unresolved }) :
    ∃ s, S { exchange := x, copy := .unresolved } s ∧ x.routeTask shard task = s.exchange := by
  have hroute := leads_route (s := { exchange := x, copy := .unresolved }) h htask hprompt
  rw [Leads] at hroute
  rw [Exchange.routeTask]
  split
  · -- a part that broke off counts as a fault of the shard, after all that it did
    rename_i hrun
    rw [hrun] at hroute
    exact ⟨_, h.trans hroute (h.count _ shard fun c => { c with faults := c.faults + 1 }), rfl⟩
  · rename_i hrun
    rw [hrun] at hroute
    exact ⟨_, hroute, rfl⟩

end Carry

/-! ## Relations between exchanges -/

section Rest

variable (h : Rests R)

include h

theorem Rests.asks : Asks fun s s' => R s.exchange s'.exchange where
  refl _ := h.refl _
  trans := h.trans
  attempt _ _ := h.attempt _ _
  fresh _ := h.fresh _

theorem keeps_call (c : ServiceCall) : Keeps R (call c) s := leads_call h.asks c

/-- Taking in a fragment changes the assembler of the shard and nothing else. -/
theorem keeps_assemble (shard : Nat) (e : Envelope) : Keeps R (assemble shard e) s := by
  have hnoted : Keeps R (modify fun s : Errand => { s with given := s.given ++ [e] }) s := h.refl _
  refine h.asks.bind hnoted fun _ s' _ => leads_step ?_
  cases s'.exchange.shard? shard with
  | none => exact h.refl _
  | some t => exact h.assemble _ _ _

theorem keeps_resolve (shard : Nat) (e : Envelope) : Keeps R (resolve shard e) s := by
  rw [resolve]
  split
  · exact h.refl _
  · refine h.asks.get_bind ?_
    split
    · exact h.refl _
    · exact h.refl _
    · -- what the errand remembers is not seen from outside
      refine h.asks.bind (h.refl _) fun _ s' _ => ?_
      refine h.asks.bind (keeps_assemble h shard e) fun outcome s' _ => ?_
      cases outcome with
      | complete message => exact h.asks.bind (h.refl _) fun _ _ _ => h.refl _
      | pending received total => exact h.refl _

/-- A message for the assistant becomes a prompt, at once or when it is complete. -/
theorem keeps_routeToAssistant (shard : Nat) (e : Envelope) :
    Keeps R (routeToAssistant shard e) s := by
  rw [routeToAssistant]
  split
  · refine h.asks.bind (keeps_assemble h shard e) fun outcome s' _ => ?_
    cases outcome with
    | complete message => exact h.ask _ _
    | pending received total => exact h.refl _
  · exact h.ask _ _

end Rest

theorem keeps_change {f : Exchange → Exchange} (h : R s.exchange (f s.exchange)) :
    Keeps R (change f) s := h

/-- Keeping a message for somebody who is away sends nothing. -/
theorem keeps_store (h : Idles R) (shard : Nat) (e : Envelope) (target : String) :
    Keeps R (store shard e target) s := by
  have hasks := h.toRests.asks
  refine hasks.bind (keeps_resolve h.toRests shard e) fun message s' _ => ?_
  cases message with
  | none => exact h.refl _
  | some message =>
      dsimp only
      split
      · exact h.refl _
      · -- from here on it does not matter where the identity of the record comes from
        have hkeep : ∀ id s', Keeps R (do
            call .persist
            change fun x =>
              let x := { x with
                services.offline := x.services.offline.persist id message.sender target
                  message.content x.now }
              x.mapCounters shard fun c => { c with persisted := c.persisted + 1 }) s' :=
          fun id s' => hasks.bind (leads_call hasks _) fun _ _ _ =>
            keeps_change (h.trans (h.persist _ _) (h.count _ _ _))
        split
        · exact hasks.bind (leads_freshId hasks) fun id s' _ => hkeep id s'
        · exact hasks.bind (leads_pure hasks _) fun id s' _ => hkeep id s'

/-- For what the exchange becomes, it does not matter what the errand remembers of a fragment. -/
theorem Bears.carries (h : Bears P R) (shard : Nat) (e : Envelope) :
    Carries P (fun s s' => R s.exchange s'.exchange) shard e where
  toAsks := h.toRests.asks
  count _ _ _ := h.count _ _ _
  sendTo _ _ _ hframe := h.sendTo _ _ hframe
  handOver _ _ _ _ hframe := h.handOver _ _ _ hframe
  publish := h.publish
  store _ target := keeps_store h.toIdles shard e target

/-- **What holds of each thing that routing does holds of routing a task.** -/
theorem keeps_routeTask (h : Bears P R) {x : Exchange} {shard : Nat} {task : Task}
    (htask : Suits P x shard task) : R x (x.routeTask shard task) := by
  obtain ⟨s, hs, heq⟩ := leads_routeTask (h.carries shard task.envelope) htask fun _ =>
    keeps_routeToAssistant h.toRests shard _
  rw [heq]
  exact hs

/-! ## The consumer -/

section Consume

variable (h : Bears P R) {frame : Bytes} (hframe : P frame)

include h hframe

/-- The consumer writes to the connection of an identity, if there is one. -/
theorem keeps_deliverFrame (x : Exchange) (identity : String) :
    R x (x.deliverFrame identity frame).2 := by
  rw [Exchange.deliverFrame]
  split
  · rw [Exchange.deliverFrameAt]
    split
    · exact h.refl x
    · next session _ =>
        have hsend := h.sendTo x session hframe
        cases hresult : x.sendTo session frame with
        | mk result y =>
            rw [hresult] at hsend
            cases result with
            | ok u =>
                dsimp only at hsend ⊢
                exact h.trans hsend (h.count y _ _)
            | error fault =>
                dsimp only at hsend ⊢
                exact h.trans hsend (h.count y _ _)
  · exact h.refl x

theorem keeps_deliverPublished (x : Exchange) (targets : List String) :
    R x (x.deliverPublished frame targets) := by
  induction targets generalizing x with
  | nil => exact h.refl x
  | cons target targets ih => exact h.trans (keeps_deliverFrame h hframe x target) (ih _)

omit hframe in
/-- The consumer writes what it is given, and stops when a service breaks off. -/
theorem keeps_handlePublished (hstop : ∀ x, R x x.stopConsumer) {event : BrokerEvent}
    (hevent : ∀ frame, event.frame? = some frame → P frame) (x : Exchange) :
    R x (x.handlePublished event) := by
  cases event with
  | direct target frame => exact keeps_deliverPublished h (hevent frame rfl) x _
  | presence event => exact h.refl x
  | group group sender frame =>
      have hasked := h.attempt x .membersOf
      rw [Exchange.handlePublished]
      split
      · next heq =>
          rw [heq] at hasked
          exact h.trans hasked (keeps_deliverPublished h (hevent frame rfl) _ _)
      · next heq =>
          rw [heq] at hasked
          exact hasked
      · next heq =>
          -- the consumer is gone with the service
          rw [heq] at hasked
          exact h.trans hasked (hstop _)

end Consume

end Routing

end Switchboard
