import Switchboard.Proofs.Routing.Group
import Switchboard.Proofs.Routing.Publish

/-!
# With a broker and without

Where there is a broker, the frames of a message are published and the consumer writes them; where
there is none, or nobody listens to it, the shards write them and hand them over to each other. It
comes to the same for everybody: what a message is to come to, `Served`, has nothing to do with how
its frames are published, and it comes to that in all three cases (`served_of_enqueue`).
-/

namespace Switchboard

/-- None is lost of so many frames that are to be published: nothing is published at all, or the
consumer has read everything and the broker holds as many events, or nobody listens to it. A task
publishes all its frames in one step, so a consumer keeps up if there is room for all of them. -/
inductive Publishing.IsLossless (frames : Nat) : Publishing → Option Nat → Prop
  | off (consumer : Option Nat) : IsLossless frames .off consumer
  | heard {b : Broker} {subscriber : Nat} (awaits : b.Awaits subscriber [])
      (holds : frames ≤ b.capacity) : IsLossless frames (.broker b) (some subscriber)
  | unheard {b : Broker} (nobody : b.subscribers.size = 0) (consumer : Option Nat) :
      IsLossless frames (.broker b) consumer

namespace Exchange

/-- The exchange with another way to publish, and with that consumer. -/
def through (x : Exchange) (publishing : Publishing) (consumer : Option Nat) : Exchange :=
  { x with services.publishing := publishing, pool.consumer := consumer }

/-- Nothing is on its way, and the consumer has nothing to read. -/
def Settled (x : Exchange) : Prop := x.AtRest ∧ x.consuming = []

/-- The session that speaks for an identity. -/
def speaker? (x : Exchange) (identity : String) : Option Session :=
  (x.pool.index.get? identity).bind fun shard => x.holder? shard identity

/-- The frames of a message that a session is sent. -/
def sentTo (x : Exchange) (e : Envelope) (raw : Bytes) (session : Session) : List Bytes :=
  if ∃ target ∈ (x.plan e raw).targets, x.speaker? target = some session then (x.plan e raw).frames
  else []

/-- What keeping a message for all those who are away leads to at the shard it came in at. -/
def stockAfter (x : Exchange) (shard : Nat) (e : Envelope) (raw : Bytes) : Stock :=
  Stock.keepAll x.now e (x.absent (x.plan e raw).targets)
    { x.stock shard with issued := (x.plan e raw).issued }

/-- The records of a message that are added to the store. -/
def kept (x : Exchange) (shard : Nat) (e : Envelope) (raw : Bytes) : OfflineStore :=
  (x.stockAfter shard e raw).offline.drop x.services.offline.length

/-- The fragments that the shards are joining after a message. -/
def joined (x : Exchange) (shard : Nat) (e : Envelope) (raw : Bytes) : Nat → Option Assembler :=
  Function.update x.assembler? shard (x.stockAfter shard e raw).assembler

/-- What a message comes to that came in at a shard: every session that speaks for somebody it is
for was sent its frames and has taken those it had room for, no other session was sent anything, the
message was kept for those who are away, and a fragment was taken in if somebody is away. How frames
are published has no part in it. -/
structure Served (x : Exchange) (shard : Nat) (e : Envelope) (raw : Bytes) (y : Exchange) :
    Prop where
  mail : ∀ session, y.mail session = (x.mail session).map (·.accept (x.sentTo e raw session))
  offline : y.services.offline = x.services.offline ++ x.kept shard e raw
  joined : y.assembler? = x.joined shard e raw

section Served

variable {x y : Exchange} {shard : Nat} {e : Envelope} {raw : Bytes} {identity : String}
  {session : Session}

/-- How frames are published is no matter of order. -/
theorem Orderly.through (hx : x.Orderly) (publishing : Publishing) (consumer : Option Nat) :
    (x.through publishing consumer).Orderly :=
  ⟨hx.well, hx.reachable, hx.limits, hx.rest, hx.noPrompt, hx.agrees, hx.owned, hx.members⟩

/-- The session that speaks for an identity is the one that holds it, at whatever shard. -/
theorem Orderly.speaker?_iff (hx : x.Orderly) :
    x.speaker? identity = some session ↔ ∃ id, x.holder? id identity = some session := by
  rw [speaker?, Option.bind_eq_some_iff]
  refine exists_congr fun id => ⟨And.right, fun hheld => ⟨hx.index_of_held hheld, hheld⟩⟩

/-- What is kept is added to what was kept before. -/
theorem offline_stockAfter (x : Exchange) (shard : Nat) (e : Envelope) (raw : Bytes) :
    (x.stockAfter shard e raw).offline = x.services.offline ++ x.kept shard e raw := by
  obtain ⟨kept, hkept⟩ := Stock.offline_keepAll x.now e (x.absent (x.plan e raw).targets)
    { x.stock shard with issued := (x.plan e raw).issued }
  have hoffline : (x.stockAfter shard e raw).offline = x.services.offline ++ kept := hkept
  rw [Exchange.kept, hoffline, List.drop_left]

/-- Whom a session was sent frames for, and whom not, does not depend on where they are. -/
theorem mail_of_mailed (hx : x.Orderly) {mail : Session → Option Mailbox}
    (h : x.Mailed mail fun _ identity =>
      if identity ∈ (x.plan e raw).targets then (x.plan e raw).frames else []) (session : Session) :
    mail session = (x.mail session).map (·.accept (x.sentTo e raw session)) := by
  by_cases hheld : ∃ id identity, x.holder? id identity = some session
  · obtain ⟨id, identity, hheld⟩ := hheld
    have hsent : x.sentTo e raw session
        = if identity ∈ (x.plan e raw).targets then (x.plan e raw).frames else [] := by
      refine if_congr ⟨?_, fun hmem => ⟨identity, hmem, hx.speaker?_iff.2 ⟨id, hheld⟩⟩⟩ rfl rfl
      -- a session holds one identity, so it is sent the frames for that one only
      rintro ⟨target, hmem, hspeaker⟩
      obtain ⟨id', hheld'⟩ := hx.speaker?_iff.1 hspeaker
      rwa [hx.owned.identity_unique hheld hheld']
    rw [hsent]
    exact h.held hheld
  · have hnobody : ∀ id identity, x.holder? id identity ≠ some session :=
      fun id identity h => hheld ⟨id, identity, h⟩
    -- a session that speaks for nobody is sent nothing
    have hsent : x.sentTo e raw session = [] := by
      refine if_neg ?_
      rintro ⟨target, -, hspeaker⟩
      obtain ⟨id, hheld⟩ := hx.speaker?_iff.1 hspeaker
      exact hnobody id target hheld
    rw [hsent]
    simp only [Mailbox.accept_nil, Option.map_id']
    exact h.others hnobody

end Served

/-! ## Frames that are not published -/

/-- A message is on its way to everybody it is for, from shard to shard. -/
structure Sending (x : Exchange) (shard : Nat) (e : Envelope) (raw : Bytes) (y : Exchange) :
    Prop where
  underway : ∃ lanes, x.Underway (x.due (x.plan e raw).frames (x.plan e raw).targets)
    (x.stockAfter shard e raw).offline (x.stockAfter shard e raw).issued lanes y.view
  joined : y.assembler? = x.joined shard e raw

section Modes

variable {x y : Exchange} {shard : Nat} {e : Envelope} {raw : Bytes}

/-- Frames that are not published go from shard to shard, to whomever they are for. -/
theorem handling_unpublished (hx : x.Orderly) (hcaught : x.CaughtUp) (he : x.Routable e raw)
    (hroom : x.HasRoom shard (x.due (x.plan e raw).frames (x.plan e raw).targets))
    (hunpublished : x.IsUnpublished shard e raw) :
    Handling x shard (inbound e raw) Action.serves (· = x.assembler?) (x.Sending shard e raw)
      Settled := by
  have htakes := takes_plan he
  have hact : ∀ (y : Exchange) (action : Action), action.serves = true →
      x.Sending shard e raw y → x.Sending shard e raw (y.act action) := by
    rintro y action haction ⟨⟨lanes, hunderway⟩, hjoined⟩
    obtain ⟨hunderway', hsame⟩ := underway_act hx hcaught htakes hunderway
      (Action.handles_of_serves haction)
    exact ⟨hunderway', (hsame haction).trans hjoined⟩
  refine
    { caughtUp := hcaught, handles := fun _ => Action.handles_of_serves, take := rfl, finish := rfl
      sweep := fun _ _ h => absurd h Bool.false_ne_true, route := ?_, act := hact, settles := ?_
      atRest := fun _ h => h.1 }
  · intro y hview hjoined
    obtain ⟨k, hk, hunderway, hrouted⟩ := underway_routeTask hview hx he hunpublished hroom
    rw [hjoined] at hk hrouted
    -- the task finds the shard as the message found it, so it keeps what the message is to have
    -- kept
    have hstock : k = x.stockAfter shard e raw := hk
    rw [hstock] at hunderway hrouted
    exact ⟨⟨_, hunderway⟩, hrouted⟩
  · intro y h
    obtain ⟨lanes, hunderway⟩ := h.underway
    obtain ⟨more, hmore, hrest⟩ := underway_settles hx htakes hunderway
    obtain ⟨lanes', hunderway'⟩ := (run_of_act (R := x.Sending shard e raw) hact h hmore).underway
    exact ⟨more, hmore, hrest, consuming_of_caughtUp (caughtUp_of_bare hunderway'.bare hcaught)⟩

/-- One processor at a shard sends the frames in their order. -/
theorem served_of_sending (hx : x.Orderly) (hone : x.processors = 1)
    (h : x.Sending shard e raw y) (hrest : y.AtRest) : x.Served shard e raw y := by
  obtain ⟨lanes, hunderway⟩ := h.underway
  have hoffline : y.services.offline = (x.stockAfter shard e raw).offline := hunderway.offline
  refine ⟨mail_of_mailed hx (hunderway.mail.congr fun id identity hsome => ?_),
    hoffline.trans (x.offline_stockAfter shard e raw), h.joined⟩
  obtain ⟨session, hheld⟩ := Option.isSome_iff_exists.1 hsome
  -- one processor brings the frames in the order in which they were made
  rw [Lane.received, (hunderway.arrived hrest id).2 hone]
  exact (filter_due (nodup_plan hx e raw) hheld _).symm

/-! ## Frames that are published -/

variable {b : Broker} {subscriber : Nat}

/-- Frames that are published are all in the broker when the task was routed, and the consumer reads
one after another. -/
theorem handling_published (hx : x.Orderly) (he : x.Routable e raw) (hroom : x.view.CanWork shard 1)
    (hconsumer : x.pool.consumer = some subscriber) (hpublishing : x.services.publishing = .broker b)
    (hb : b.Awaits subscriber []) (hcapacity : (x.toPublish shard e raw).length ≤ b.capacity)
    (hpublished : ¬ x.IsUnpublished shard e raw) :
    Handling x shard (inbound e raw) Action.serves (· = x.assembler?)
      (fun y => ∃ read unread, read ++ unread = (x.plan e raw).frames ∧
        x.Heard shard subscriber e (x.stockAfter shard e raw) read unread y) Settled := by
  obtain ⟨-, -, hframes⟩ := toPublish_of_published hpublished
  refine
    { caughtUp := caughtUp_of_awaits hconsumer hpublishing hb
      handles := fun _ => Action.handles_of_serves, take := rfl, finish := rfl
      sweep := fun _ _ h => absurd h Bool.false_ne_true, route := ?_, act := ?_, settles := ?_
      atRest := fun _ h => h.1 }
  · intro y hview hjoined
    obtain ⟨b', s, hb', hroute, hs⟩ := dispatched_routeTask_of_view hview hjoined hx he hroom
      hpublishing hb hcapacity hpublished
    rw [targets_of_plan hframes] at hs
    refine ⟨[], (x.plan e raw).frames, rfl, ?_⟩
    rw [hroute, stockAfter, targets_of_plan hframes]
    exact heard_of_dispatched hb' hs
  · rintro y action haction ⟨read, unread, hall, h⟩
    obtain ⟨read', unread', hsame, h'⟩ := heard_act hx hconsumer h haction
    exact ⟨read', unread', hsame.trans hall, h'⟩
  · rintro y ⟨read, unread, -, h⟩
    obtain ⟨more, hmore, hend⟩ := heard_settles hx hconsumer h
    exact ⟨more, hmore, hend.rest, consuming_of_heard hconsumer hend⟩

/-- When the consumer has nothing to read, it has read every frame. -/
theorem served_of_heard (hx : x.Orderly) (hconsumer : x.pool.consumer = some subscriber)
    (hframes : (x.plan e raw).frames ≠ [])
    {read unread : List Bytes} (hall : read ++ unread = (x.plan e raw).frames)
    (h : x.Heard shard subscriber e (x.stockAfter shard e raw) read unread y)
    (hnothing : y.consuming = []) : x.Served shard e raw y := by
  rw [consuming_of_heard hconsumer h, List.replicate_eq_nil_iff] at hnothing
  rw [List.eq_nil_of_length_eq_zero hnothing, List.append_nil] at hall
  refine ⟨mail_of_mailed hx ?_, h.offline.trans (x.offline_stockAfter shard e raw), h.joined⟩
  rw [targets_of_plan hframes, ← hall]
  exact h.mail

/-! ## All ways to publish -/

/-- A message that comes in at a shard is queued, it can be brought to its end whatever processors,
coordinators, the assistant and the consumer do, and whenever it is there, it has come to `Q`. -/
def ComesTo (x : Exchange) (shard : Nat) (e : Envelope) (raw : Bytes) (Q : Exchange → Prop) :
    Prop :=
  ∃ y, x.enqueue shard raw none = (.ok (), y) ∧ x.enqueueEnvelope shard e raw = (.ok (), y) ∧
    ∀ history : List Action, (∀ action ∈ history, action.serves = true) →
      (∃ more : List Action, (∀ action ∈ more, action.serves = true) ∧
        ((y.run history).run more).Settled) ∧
      ((y.run history).Settled → Q (y.run history))

/-- A message that is handled as it should be is queued, and comes to what handling it comes to. -/
theorem comesTo_of_handling {R Q : Exchange → Prop} (hx : x.Orderly) (hroom : x.view.CanWork shard 1)
    (hdecode : Envelope.decode raw = .ok e)
    (h : Handling x shard (inbound e raw) Action.serves (· = x.assembler?) R Settled)
    (hQ : ∀ y, R y → y.Settled → Q y) : x.ComesTo shard e raw Q := by
  obtain ⟨y, henqueue, henvelope, hy⟩ := h.outcome hx rfl hroom hdecode
  refine ⟨y, henqueue, henvelope, fun history hhistory => ?_⟩
  obtain ⟨hsettles, hrouted⟩ := hy history hhistory
  exact ⟨hsettles, fun hsettled => hQ _ (hrouted hsettled) hsettled⟩

/-- **Without a broker** a message comes to what it is to come to. -/
theorem served_of_unpublished (hx : x.Orderly) (hone : x.processors = 1) (hcaught : x.CaughtUp)
    (he : x.Routable e raw)
    (hroom : x.HasRoom shard (x.due (x.plan e raw).frames (x.plan e raw).targets))
    (hunpublished : x.IsUnpublished shard e raw) :
    x.ComesTo shard e raw (x.Served shard e raw) :=
  comesTo_of_handling hx hroom.own he.decode (handling_unpublished hx hcaught he hroom hunpublished)
    fun _ h hsettled => served_of_sending hx hone h hsettled.1

/-- **With a broker** it does so too. -/
theorem served_of_published (hx : x.Orderly) (he : x.Routable e raw) (hroom : x.view.CanWork shard 1)
    (hconsumer : x.pool.consumer = some subscriber) (hpublishing : x.services.publishing = .broker b)
    (hb : b.Awaits subscriber []) (hcapacity : (x.toPublish shard e raw).length ≤ b.capacity)
    (hpublished : ¬ x.IsUnpublished shard e raw) :
    x.ComesTo shard e raw (x.Served shard e raw) := by
  refine comesTo_of_handling hx hroom he.decode
    (handling_published hx he hroom hconsumer hpublishing hb hcapacity hpublished) ?_
  rintro y ⟨read, unread, hall, h⟩ hsettled
  exact served_of_heard hx hconsumer (toPublish_of_published hpublished).2.2 hall h hsettled.2

theorem ComesTo.mono {Q Q' : Exchange → Prop} (h : x.ComesTo shard e raw Q)
    (hQ : ∀ y, Q y → Q' y) : x.ComesTo shard e raw Q' := by
  obtain ⟨y, henqueue, henvelope, hy⟩ := h
  refine ⟨y, henqueue, henvelope, fun history hhistory => ?_⟩
  exact ⟨(hy history hhistory).1, fun hsettled => hQ _ ((hy history hhistory).2 hsettled)⟩

/-- Where nothing gets lost, the consumer has nothing left to read. -/
theorem caughtUp_of_lossless {publishing : Publishing} {consumer : Option Nat} {frames : Nat}
    (h : publishing.IsLossless frames consumer) : (x.through publishing consumer).CaughtUp := by
  cases h with
  | off => exact caughtUp_of_off rfl
  | heard awaits => exact caughtUp_of_awaits rfl rfl awaits
  | unheard nobody => exact caughtUp_of_nobody rfl nobody

/-- **It comes to the same whether there is a broker or not.** A message for one person or a group,
whole or a fragment, may come in at any shard, and those it is for may be anywhere: without a
broker, with one whose consumer keeps up, and with one that nobody listens to, everybody is sent the
same frames, the same records are kept, and the same fragments are left to be joined. -/
theorem served_of_enqueue (hx : x.Orderly) (hone : x.processors = 1) (he : x.Routable e raw)
    (hroom : x.HasRoom shard (x.due (x.plan e raw).frames (x.plan e raw).targets))
    {publishing : Publishing} {consumer : Option Nat}
    (hlossless : publishing.IsLossless (x.toPublish shard e raw).length consumer) :
    (x.through publishing consumer).ComesTo shard e raw (x.Served shard e raw) := by
  -- what holds of the exchange holds of it with any way to publish
  have hx' := hx.through publishing consumer
  have he' : (x.through publishing consumer).Routable e raw :=
    ⟨he.decode, he.recipient, he.person, he.measured⟩
  have hroom' : (x.through publishing consumer).HasRoom shard
      (x.due (x.plan e raw).frames (x.plan e raw).targets) := ⟨hroom.own, hroom.work, hroom.forward⟩
  by_cases hunpublished : (x.through publishing consumer).IsUnpublished shard e raw
  · refine (served_of_unpublished hx' hone (caughtUp_of_lossless hlossless) he' hroom'
      hunpublished).mono fun y h => ?_
    exact ⟨h.mail, h.offline, h.joined⟩
  · cases hlossless with
    | off => exact absurd (.inl (mute_of_off rfl)) hunpublished
    | heard awaits holds =>
        refine (served_of_published hx' he' hroom.own rfl rfl awaits holds
          hunpublished).mono fun y h => ?_
        exact ⟨h.mail, h.offline, h.joined⟩
    | unheard nobody => exact absurd (.inl (mute_of_nobody rfl nobody)) hunpublished

end Modes

/-- The exchange with the crew, and with one processor at each shard. -/
def crewInTurn : Exchange := { withCrew with config := withCrew.config.withProcessors 1 }

theorem orderly_crewInTurn : crewInTurn.Orderly :=
  have h := orderly_withCrew
  ⟨h.well, h.reachable, h.limits, h.rest, h.noPrompt, h.agrees, h.owned, h.members⟩

theorem forGroup_crewInTurn : crewInTurn.ForGroup toCrew :=
  have h := forGroup_toCrew
  ⟨h.recipient, h.kind, h.whole, h.measured, h.splits⟩

theorem plan_crewInTurn : (crewInTurn.plan toCrew toCrew.encode).targets = ["bob", "cho"] ∧
    (crewInTurn.plan toCrew toCrew.encode).frames = [toCrew.encode] := by
  have htargets : crewInTurn.targets toCrew = ["bob", "cho"] := targets_toCrew
  have hframes : crewInTurn.frames toCrew toCrew.encode = [toCrew.encode] := frames_toCrew
  obtain ⟨hall, hsome, -⟩ := forGroup_crewInTurn.plan toCrew.encode
  refine ⟨hall.trans htargets, (hsome ?_).trans hframes⟩
  rw [htargets]
  exact List.cons_ne_nil "bob" ["cho"]

theorem hasRoom_crewInTurn : crewInTurn.HasRoom 0 (crewInTurn.due
    (crewInTurn.plan toCrew toCrew.encode).frames (crewInTurn.plan toCrew toCrew.encode).targets) := by
  rw [forGroup_crewInTurn.due]
  have h := hasRoom_toCrew
  exact ⟨h.own, h.work, h.forward⟩

theorem length_toPublish_crewInTurn :
    (crewInTurn.toPublish 0 toCrew toCrew.encode).length = 1 := by
  rw [toPublish, if_neg fun h => DeliveryKind.noConfusion h.1, plan_crewInTurn.2]
  rfl

theorem sentTo_crewInTurn : crewInTurn.sentTo toCrew toCrew.encode 1 = [toCrew.encode] := by
  rw [sentTo, plan_crewInTurn.1, plan_crewInTurn.2]
  refine if_pos ⟨"bob", List.mem_cons_self, ?_⟩
  decide

/-- Ann's message to the crew can be brought to its end, and then it has come to what it is to come
to, and Bob has been sent it. -/
def CrewIsServed (x : Exchange) : Prop :=
  ∃ y history, x.enqueue 0 toCrew.encode none = (.ok (), y) ∧ (y.run history).Settled ∧
    crewInTurn.Served 0 toCrew toCrew.encode (y.run history) ∧
    (y.run history).mail 1 = (crewInTurn.mail 1).map (·.accept [toCrew.encode])

theorem crewIsServed_of_comesTo {x : Exchange}
    (h : x.ComesTo 0 toCrew toCrew.encode (crewInTurn.Served 0 toCrew toCrew.encode)) :
    CrewIsServed x := by
  obtain ⟨y, henqueue, -, hy⟩ := h
  obtain ⟨⟨more, hmore, hsettled⟩, -⟩ := hy [] fun action h => absurd h List.not_mem_nil
  have hserved := (hy more hmore).2 hsettled
  exact ⟨y, more, henqueue, hsettled, hserved, sentTo_crewInTurn ▸ hserved.mail 1⟩

theorem served_of_enqueue_crew :
    CrewIsServed (crewInTurn.through .off none) ∧
      CrewIsServed (crewInTurn.through (.broker (Broker.new 8).subscribe.2) (some 0)) ∧
      CrewIsServed (crewInTurn.through (.broker (Broker.new 8)) none) := by
  have hroutable := forGroup_crewInTurn.routable decode_toCrew
  have hawaits : (Broker.new 8).subscribe.2.Awaits 0 [] :=
    ⟨0, rfl, Nat.le_refl 0, rfl, Nat.zero_le _⟩
  have hholds : (crewInTurn.toPublish 0 toCrew toCrew.encode).length
      ≤ (Broker.new 8).subscribe.2.capacity := by
    rw [length_toPublish_crewInTurn]
    decide
  refine ⟨?_, ?_, ?_⟩
  · exact crewIsServed_of_comesTo (served_of_enqueue orderly_crewInTurn rfl hroutable
      hasRoom_crewInTurn (.off none))
  · exact crewIsServed_of_comesTo (served_of_enqueue orderly_crewInTurn rfl hroutable
      hasRoom_crewInTurn (.heard hawaits hholds))
  · exact crewIsServed_of_comesTo (served_of_enqueue orderly_crewInTurn rfl hroutable
      hasRoom_crewInTurn (.unheard rfl none))

end Exchange

end Switchboard
