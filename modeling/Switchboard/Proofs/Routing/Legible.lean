import Switchboard.Proofs.Routing.Influx
import Switchboard.Proofs.Routing.Records

/-!
# What is on its way can be read

A task is routed by its envelope, but it is its octets that are sent. In an exchange that tasks enter
by its readers, by the coordinators and by the assistant only, the octets of every task read as the
envelope of the task, and every frame that was handed over or published reads as some envelope
(`Legible`), whatever happens in what order. So no coordinator ever has to drop a frame that it cannot
read, and what comes of a task, be it a frame for somebody who is connected or a record for somebody
who is away, comes of one and the same message (`legible_of_reaches`).

The lengths in an envelope's octets have eight octets each, so all that is supposed of the states on
the way is that no text in them is longer (`Measured`).
-/

namespace Switchboard

namespace Exchange

/-- Every task reads as its envelope, and every frame on its way reads as an envelope. -/
structure Legible (x : Exchange) : Prop where
  task : ∀ task, x.HasTask task → Envelope.decode task.raw = .ok task.envelope
  frame : ∀ frame, x.HasFrame frame → Readable frame

/-- The length of every task can be told in eight octets, also when the task is completed. -/
def Measured (x : Exchange) : Prop :=
  ∀ task, x.HasTask task →
    (task.envelope.completed (formatId x.issued) x.timestamp).encode.length < 256 ^ 8

/-- Nothing is on its way. -/
structure Blank (x : Exchange) : Prop where
  keyed : x.ground.Keyed
  task : ∀ task, ¬ x.HasTask task
  frame : ∀ frame, ¬ x.HasFrame frame

instance (x : Exchange) : Decidable x.Measured :=
  decidable_of_iff (∀ s ∈ x.pool.shards, ∀ task ∈ s.traffic.tasks,
      (task.envelope.completed (formatId x.issued) x.timestamp).encode.length < 256 ^ 8) <| by
    have hiff : ∀ task, x.HasTask task ↔ ∃ s ∈ x.pool.shards, task ∈ s.traffic.tasks :=
      fun _ => mem_traffic_iff Traffic.tasks rfl
    refine ⟨fun h task htask => ?_, fun h s hs task htask => h task ((hiff task).2 ⟨s, hs, htask⟩)⟩
    obtain ⟨s, hs, hmem⟩ := (hiff task).1 htask
    exact h s hs task hmem

/-- One thing that happens: an action; a client who comes, sends something or goes, in one step or in
several; time that passes; the end; or anything else that brings neither tasks nor frames. -/
inductive Steps (x : Exchange) : Exchange → Prop
  | act (action : Action) : x.Steps (x.act action)
  | place : x.Steps x.place.2
  | enter (shard : Nat) (identity : String) (remoteAddress : Option SocketAddress)
      (capacity : Nat) : x.Steps (x.enter shard identity remoteAddress capacity).2
  | openSocket (session : Session) (wire : Wire) (keepalive : Keepalive) :
      x.Steps (x.openSocket session wire keepalive)
  | clientSends (session : Session) (items : List Switchboard.Incoming) :
      x.Steps (x.clientSends session items).2
  | unregister (shard : Nat) (session : Session) : x.Steps (x.unregister shard session).2
  | wait (duration : Nat) : x.Steps (x.wait duration)
  | shutDown : x.Steps x.shutDown
  | other {y : Exchange} (hkeyed : y.ground.Keyed)
      (h : Acquires (fun _ => False) (fun _ => False) x y) : x.Steps y

/-- What can be reached step by step, in any order, as long as tasks can be measured. -/
inductive Reaches (x : Exchange) : Exchange → Prop
  | start : x.Reaches x
  | step {y z : Exchange} (h : x.Reaches y) (hstep : y.Steps z) (hmeasured : z.Measured) : x.Reaches z

/-- What is routed because of a task, where: the task itself, and the frames of it that were handed
over, by the shard that they were handed over to. That may find anything when it comes to it. -/
inductive Routes (x : Exchange) (shard : Nat) (task : Task) : Exchange → Nat → Task → Prop
  | itself : Routes x shard task x shard task
  | relayed {owner : Nat} {handover : Handover} {e : Envelope} (y : Exchange)
      (h : x.Spreads shard task (.handedOver owner handover))
      (hdecode : Envelope.decode handover.frame = .ok e) :
      Routes x shard task y owner
        { envelope := e, raw := handover.frame, origin := .forwarded handover.target }

/-- All that comes of a task comes of its message: every frame reads as a part of it, and wherever
something is routed because of it, this is a part of it, and records are kept of this only. -/
structure ComesOfOne (x : Exchange) (shard : Nat) (task : Task) (limits : FragmentLimits) : Prop where
  frames : x.SpreadsOnly (task.envelope.IsCarriedBy limits (formatId x.issued) x.timestamp) shard task
  records : ∀ y owner part, x.Routes shard task y owner part →
    task.envelope.IsPart limits (formatId x.issued) x.timestamp part.envelope ∧
      y.Records owner part.envelope (y.routeTask owner part)

variable {x y z : Exchange} {shard slot : Nat} {task : Task} {s : Shard}

/-! ## One task -/

/-- A task that reads as its envelope may send parts of its message. -/
theorem suits_of_decode (hs : x.shard? shard = some s)
    (hdecode : Envelope.decode task.raw = .ok task.envelope)
    (hmeasured : (task.envelope.completed (formatId x.issued) x.timestamp).encode.length < 256 ^ 8) :
    Routing.Suits (task.envelope.IsCarriedBy s.assembler.limits (formatId x.issued) x.timestamp)
      x shard task where
  whole _ := ⟨task.envelope, hdecode, Or.inl rfl⟩
  cut _ _ := cuts_of_framed hs fun _ hframed _ hframe =>
    Envelope.isCarriedBy_of_mem_framed hframed hmeasured hdecode hframe

/-- Of a task that reads as its envelope, nothing comes but what its message is made of. -/
theorem comesOfOne_of_decode (hkeyed : x.ground.Keyed) (hs : x.shard? shard = some s)
    (hdecode : Envelope.decode task.raw = .ok task.envelope)
    (hmeasured : (task.envelope.completed (formatId x.issued) x.timestamp).encode.length < 256 ^ 8) :
    x.ComesOfOne shard task s.assembler.limits := by
  have hframes := spreadsOnly_of_suits hkeyed (suits_of_decode hs hdecode hmeasured)
  refine ⟨hframes, fun y owner part hroutes => ⟨?_, y.records_routeTask owner part⟩⟩
  cases hroutes with
  | itself => exact Or.inl rfl
  | relayed y h hread =>
      -- the other shard reads the frame as the part that it was made of
      obtain ⟨part, hpart, his⟩ := hframes _ h _ rfl
      obtain rfl := Except.ok.inj (hread.symm.trans hpart)
      exact his

/-- A task that somebody has in hand is at a shard. -/
theorem shard_of_inHand (hslot : (x.traffic shard).inHand[slot]? = some task) :
    ∃ s, x.shard? shard = some s ∧ (x.putDown shard slot).shard? shard
      = some { s with inHand := s.inHand.eraseIdx slot } := by
  cases hs : x.shard? shard with
  | none =>
      have hnone : x.traffic shard = {} := traffic_of_none hs
      rw [hnone] at hslot
      cases hslot
  | some s =>
      refine ⟨s, rfl, ?_⟩
      rw [putDown, shard?_mapShard, if_pos rfl, hs]
      rfl

/-- A task that somebody has in hand is on its way. -/
theorem hasTask_of_inHand (hslot : (x.traffic shard).inHand[slot]? = some task) : x.HasTask task :=
  ⟨shard, List.mem_append_right _ (List.mem_of_getElem? hslot)⟩

/-! ## One step -/

/-- Routing a task brings no task, and frames that can be read. -/
theorem acquires_finish (hx : x.Legible) (hmeasured : x.Measured) (shard slot : Nat) :
    Acquires Task.IsMade Readable x (x.finish shard slot) := by
  cases hslot : (x.traffic shard).inHand[slot]? with
  | none =>
      rw [finish_of_none hslot]
      exact .refl x
  | some task =>
      obtain ⟨s, -, hs⟩ := shard_of_inHand hslot
      have htask := hasTask_of_inHand hslot
      have hsuits := suits_of_decode hs (hx.task task htask) (hmeasured task htask)
      rw [finish_eq_routeTask hslot]
      -- what the task may send are parts of its message, and these can be read
      refine (acquires_putDown x shard slot).trans
        ((Routing.keeps_routeTask (bears_acquires Task.IsMade _) hsuits).mono (fun _ h => h) ?_)
      rintro frame ⟨part, hpart, -⟩
      exact ⟨part, hpart⟩

/-- **What an action brings are tasks that were made of their envelopes, and frames that can be
read.** -/
theorem acquires_act (hkeyed : x.ground.Keyed) (hx : x.Legible) (hmeasured : x.Measured)
    (action : Action) : Acquires Task.IsMade Readable x (x.act action) := by
  cases action with
  | take shard => exact acquires_take x shard
  | finish shard slot => exact acquires_finish hx hmeasured shard slot
  | relay shard => exact acquires_relay hx.frame shard
  | sweep shard =>
      refine acquires_mapShard_of_same ?_ x shard
      exact fun _ => rfl
  | answer => exact acquires_answer x
  | consume => exact acquires_consume hx.frame
  | read session => exact acquires_read x session
  | write session => exact acquires_write x session
  | ping session => exact acquires_ping x session
  | conclude session => exact acquires_conclude hkeyed session

/-- The same of everything else that happens. -/
theorem acquires_step (hkeyed : x.ground.Keyed) (hx : x.Legible) (hmeasured : x.Measured)
    (h : x.Steps y) : Acquires Task.IsMade Readable x y := by
  cases h with
  | act action => exact acquires_act hkeyed hx hmeasured action
  | place => exact acquires_place x
  | enter shard identity remoteAddress capacity =>
      exact acquires_enter hkeyed shard identity remoteAddress capacity
  | openSocket session wire keepalive => exact acquires_openSocket x session wire keepalive
  | clientSends session items => exact acquires_clientSends x session items
  | unregister shard session => exact acquires_unregister hkeyed shard session
  | wait duration => exact acquires_of_same rfl rfl
  | shutDown => exact acquires_shutDown x
  | other _ hnothing => exact hnothing.mono (fun _ => False.elim) fun _ => False.elim

theorem keyed_act (hkeyed : x.ground.Keyed) (action : Action) : (x.act action).ground.Keyed := by
  have hrespects := Pursuit.respects_lifted (w := .start x) (m := .act action) trivial
  exact (hrespects (keyed_of_connections (Pursuit.connections_lifted _ _) hkeyed)).1

theorem keyed_openSocket (hkeyed : x.ground.Keyed) (session : Session) (wire : Wire)
    (keepalive : Keepalive) : (x.openSocket session wire keepalive).ground.Keyed := by
  obtain ⟨y, hy⟩ : ∃ y, y = x.putSocket session (.new wire keepalive x.ticks) := ⟨_, rfl⟩
  have hput : x.Same y := hy ▸ same_of_eq rfl rfl
  rw [openSocket, ← hy]
  split
  · exact (hput hkeyed).1
  · -- no timer can be set, so the writer breaks off
    exact (hput.yields.trans (yields_dropWriter y session) hkeyed).1

theorem keyed_clientSends (hkeyed : x.ground.Keyed) (session : Session)
    (items : List Switchboard.Incoming) : (x.clientSends session items).2.ground.Keyed := by
  rw [clientSends]
  split
  · exact hkeyed
  · dsimp only
    split
    · exact (same_mapSocket x session _ hkeyed).1
    · exact hkeyed

theorem keyed_shutDown (hkeyed : x.ground.Keyed) : x.shutDown.ground.Keyed := by
  refine keyed_of_connections ?_ hkeyed
  rw [shutDown, stopConsumer]
  split
  · rfl
  · rfl

/-- Whatever happens, connections stay filed under their own sessions. -/
theorem keyed_step (hkeyed : x.ground.Keyed) (h : x.Steps y) : y.ground.Keyed := by
  cases h with
  | act action => exact keyed_act hkeyed action
  | place => exact keyed_of_connections (placed_place x).connections hkeyed
  | enter shard identity remoteAddress capacity =>
      exact (yields_enter x shard identity remoteAddress capacity hkeyed).1
  | openSocket session wire keepalive => exact keyed_openSocket hkeyed session wire keepalive
  | clientSends session items => exact keyed_clientSends hkeyed session items
  | unregister shard session => exact (same_unregister x shard session hkeyed).1
  | wait duration => exact hkeyed
  | shutDown => exact keyed_shutDown hkeyed
  | other hkeyed' _ => exact hkeyed'

/-- An exchange stays legible through what brings legible things only. -/
theorem Legible.acquire (hx : x.Legible) (h : Acquires Task.IsMade Readable x y)
    (hmeasured : y.Measured) : y.Legible where
  task task htask := by
    rcases h.task task htask with hold | hmade
    · -- it was there before
      exact hx.task task hold
    · exact decode_of_made hmade (hmeasured task htask)
  frame frame hframe := (h.frame frame hframe).elim (hx.frame frame) id

/-! ## Where it starts -/

/-- Nothing waits at the shards of a new exchange. -/
theorem traffic_of_new (config : Config) (services : Services) (now : Moment) (shard : Nat) :
    (Exchange.new config services now).traffic shard = {} := by
  cases hs : (Exchange.new config services now).shard? shard with
  | none => exact traffic_of_none hs
  | some s =>
      obtain ⟨id, -, rfl⟩ := List.mem_map.1 (List.mem_of_getElem? hs)
      exact (traffic_of_shard? hs).trans (traffic_new _ _ _)

/-- Nothing is on its way in a new exchange, if the broker that it is given is new as well. -/
theorem blank_new (config : Config) {services : Services} (now : Moment) (consumer : Option Nat)
    (hsilent : ∀ b, services.publishing = .broker b → b.sent = []) :
    { Exchange.new config services now with pool.consumer := consumer }.Blank where
  keyed _ _ _ h := absurd h.symm (Option.some_ne_none _)
  task task h := by
    obtain ⟨shard, hmem⟩ := h
    change task ∈ ((Exchange.new config services now).traffic shard).tasks at hmem
    rw [traffic_of_new] at hmem
    cases hmem
  frame frame h := by
    rcases h with ⟨shard, handover, hmem, -⟩ | hmem
    · change handover ∈ ((Exchange.new config services now).traffic shard).forward at hmem
      rw [traffic_of_new] at hmem
      cases hmem
    · -- a frame that was published is an event of the broker, which has none
      obtain ⟨event, hsent, -⟩ := List.mem_filterMap.1 hmem
      have hnothing : (Exchange.new config services now).sent = [] := by
        rw [sent, broker?]
        split
        · next b hpublishing => exact hsilent b hpublishing
        · rfl
      change event ∈ (Exchange.new config services now).sent at hsent
      rw [hnothing] at hsent
      cases hsent

theorem publishing_withAssistant {services services' : Services} {config : Config}
    {transport : Completion.Transport} (h : services.withAssistant config transport = .ok services') :
    services'.publishing = services.publishing := by
  rw [Services.withAssistant] at h
  split at h
  · split at h
    · obtain rfl := Except.ok.inj h
      rfl
    · cases h
  · obtain rfl := Except.ok.inj h
    rfl

/-- **Nothing is on its way in an exchange that was just started**, unless it was given a broker that
had been used before. -/
theorem blank_start {config : Config} {services : Services} {transport : Completion.Transport}
    {now : Moment} (hsilent : ∀ b, services.publishing = .broker b → b.sent = [])
    (h : Exchange.start config services transport now = .ok x) : x.Blank := by
  rw [start] at h
  have hbroker : ∀ b, (services.withBroker config).2.publishing = .broker b → b.sent = [] := by
    intro b hb
    rw [Services.withBroker] at hb
    split at hb
    · obtain rfl := Publishing.broker.inj hb
      rfl
    · exact hsilent b hb
  dsimp only at h
  split at h
  · next services' hassistant =>
      obtain rfl := Except.ok.inj h
      refine blank_new config now _ fun b hb => hbroker b ?_
      rw [← publishing_withAssistant hassistant]
      exact hb
  · cases h

/-! ## All steps -/

/-- Where nothing is on its way all of it can be read. -/
theorem Blank.legible (hx : x.Blank) : x.Legible where
  task task h := absurd h (hx.task task)
  frame frame h := absurd h (hx.frame frame)

theorem Blank.measured (hx : x.Blank) : x.Measured := fun task h => absurd h (hx.task task)

/-- What can be reached from there is legible, step by step. -/
theorem legible_run (hx : x.Blank) (h : x.Reaches y) :
    y.ground.Keyed ∧ y.Legible ∧ y.Measured := by
  induction h with
  | start => exact ⟨hx.keyed, hx.legible, hx.measured⟩
  | step _ hstep hmeasured ih =>
      -- the step is taken in an exchange that is measured already, and its end has to be
      obtain ⟨hkeyed, hlegible, hbefore⟩ := ih
      have hgain := acquires_step hkeyed hlegible hbefore hstep
      exact ⟨keyed_step hkeyed hstep, hlegible.acquire hgain hmeasured, hmeasured⟩

/-- A coordinator queues the oldest frame that was handed over as a task with the envelope that it
reads as. -/
theorem relay_of_legible (hx : x.Legible) {handover : Handover} {rest : List Handover}
    (hforward : (x.traffic shard).forward = handover :: rest) : ∃ e,
      Envelope.decode handover.frame = .ok e ∧ x.relay shard = ((x.draw shard).submit shard
        { envelope := e, raw := handover.frame, origin := .forwarded handover.target }).2 := by
  obtain ⟨e, hdecode⟩ := hx.frame handover.frame
    (Or.inl ⟨shard, handover, by rw [hforward]; exact List.mem_cons_self, rfl⟩)
  refine ⟨e, hdecode, ?_⟩
  rw [relay_of_forward hforward, enqueue, hdecode]

/-- **A task's octets and its envelope never disagree**, and every frame that was handed over or
published can be read. So a coordinator never drops a frame because it cannot read it, and whatever
comes of a task that is routed comes of one message. -/
theorem legible_of_reaches (hx : x.Blank) (h : x.Reaches y) :
    y.Legible ∧
    (∀ shard handover rest, (y.traffic shard).forward = handover :: rest → ∃ e,
      Envelope.decode handover.frame = .ok e ∧ y.relay shard = ((y.draw shard).submit shard
        { envelope := e, raw := handover.frame, origin := .forwarded handover.target }).2) ∧
    ∀ shard slot task, (y.traffic shard).inHand[slot]? = some task → ∃ s,
      y.shard? shard = some s ∧ y.finish shard slot = (y.putDown shard slot).routeTask shard task ∧
      (y.putDown shard slot).ComesOfOne shard task s.assembler.limits := by
  obtain ⟨hkeyed, hlegible, hmeasured⟩ := legible_run hx h
  refine ⟨hlegible, fun shard handover rest hforward => relay_of_legible hlegible hforward,
    fun shard slot task hslot => ?_⟩
  obtain ⟨s, hs, hs'⟩ := shard_of_inHand hslot
  have htask := hasTask_of_inHand hslot
  refine ⟨s, hs, finish_eq_routeTask hslot, ?_⟩
  -- the task is put down before it is routed, which changes neither limits nor connections
  have hkeyed' : (y.putDown shard slot).ground.Keyed := keyed_of_connections rfl hkeyed
  have hone := comesOfOne_of_decode hkeyed' hs' (hlegible.task task htask) (hmeasured task htask)
  exact hone

/-- Two shards. -/
def pairConfig : Config := { pool.initialShards := 2, pool.maxShards := 2 }

def emptyPair : Exchange := .new pairConfig .inMemory 0

theorem start_emptyPair : Exchange.start pairConfig .inMemory (fun _ => .error "") 0
    = .ok emptyPair := rfl

/-- Ann is at the first shard. -/
def halfPair : Exchange := (emptyPair.enter 0 "ann" none 8).2

/-- Bob is at the second one. -/
def pair : Exchange := (halfPair.enter 1 "bob" none 8).2

/-- A message from Ann for Bob. -/
def hello : Envelope := .direct "ann" "bob" .text "hello" 1

/-- Ann has a socket. -/
def wired : Exchange := pair.openSocket 0 .plain ⟨30000, 90000⟩

/-- Ann has sent her message twice. -/
def helloing : Exchange :=
  (wired.clientSends 0 [.binary hello.encode, .binary hello.encode]).2

/-- The first message was handed over to the second shard, the second one is in hand. -/
def halfway : Exchange := helloing.run [.read 0, .take 0, .finish 0 0, .read 0, .take 0]

theorem reaches_halfway : emptyPair.Blank ∧ emptyPair.Reaches halfway := by
  have hblank : emptyPair.Blank := blank_start (fun _ h => Publishing.noConfusion h) start_emptyPair
  refine ⟨hblank, ?_⟩
  have hann : emptyPair.Reaches halfPair := .step .start (.enter 0 "ann" none 8) (by decide +kernel)
  have hbob : emptyPair.Reaches pair := .step hann (.enter 1 "bob" none 8) (by decide +kernel)
  have hwired : emptyPair.Reaches wired :=
    .step hbob (.openSocket 0 .plain ⟨30000, 90000⟩) (by decide +kernel)
  have hsent : emptyPair.Reaches helloing := .step hwired (.clientSends 0 _) (by decide +kernel)
  have hread : emptyPair.Reaches (helloing.run [.read 0]) :=
    .step hsent (.act (.read 0)) (by decide +kernel)
  have htaken : emptyPair.Reaches (helloing.run [.read 0, .take 0]) :=
    .step hread (.act (.take 0)) (by decide +kernel)
  have hrouted : emptyPair.Reaches (helloing.run [.read 0, .take 0, .finish 0 0]) :=
    .step htaken (.act (.finish 0 0)) (by decide +kernel)
  have hagain : emptyPair.Reaches (helloing.run [.read 0, .take 0, .finish 0 0, .read 0]) :=
    .step hrouted (.act (.read 0)) (by decide +kernel)
  exact .step hagain (.act (.take 0)) (by decide +kernel)

theorem legible_of_reaches_halfway :
    (∃ e, halfway.relay 1 = ((halfway.draw 1).submit 1
      { envelope := e, raw := hello.encode, origin := .forwarded "bob" }).2) ∧
    ∃ limits, (halfway.putDown 0 0).ComesOfOne 0 (inbound hello hello.encode) limits := by
  obtain ⟨hblank, hreaches⟩ := reaches_halfway
  obtain ⟨-, hrelay, hfinish⟩ := legible_of_reaches hblank hreaches
  obtain ⟨e, -, heq⟩ := hrelay 1 ⟨"bob", hello.encode⟩ [] (by decide +kernel)
  obtain ⟨s, -, -, hone⟩ := hfinish 0 0 (inbound hello hello.encode) (by decide +kernel)
  exact ⟨⟨e, heq⟩, s.assembler.limits, hone⟩

end Exchange

end Switchboard
