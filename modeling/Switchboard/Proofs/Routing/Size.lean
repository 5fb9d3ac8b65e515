import Switchboard.Exchange.Start
import Switchboard.Proofs.Routing.Bringing
import Switchboard.Proofs.Routing.Plan

/-!
# How large frames are

A message that is larger than a frame may be is split before it goes anywhere. So whatever is handed
on because of a task that came in, to a connection, to another shard or to the broker, right away or
later when the other shard and the consumer come to it, reads as a fragment or as an envelope that
fits (`Sized`). There is one exception, and `sized_iff` says that it is the only one: a notice to
everybody is sent as it is, however large it is.
-/

namespace Switchboard

/-- A frame reads as a fragment, or as an envelope within the limits. -/
def Sized (limits : FragmentLimits) (frame : Bytes) : Prop :=
  ∃ e, Envelope.decode frame = .ok e ∧ (e.isFragment = true ∨ e.encodedLength ≤ limits.size)

/-- A task is a notice that is too large for a frame, and no fragment. -/
def Task.IsFlood (limits : FragmentLimits) (task : Task) : Prop :=
  task.envelope.isNotice = true ∧ task.envelope.isSplit limits = true

/-- Something that is handed on: a frame to a connection or to another shard, or an event to the
broker. -/
inductive Handing
  | written (session : Session) (frame : Bytes)
  | handedOver (shard : Nat) (handover : Handover)
  | published (event : BrokerEvent)
  deriving DecidableEq

/-- The frame that is handed on, if there is one. -/
def Handing.frame? : Handing → Option Bytes
  | .written _ frame => some frame
  | .handedOver _ handover => some handover.frame
  | .published event => event.frame?

namespace Exchange

/-- Everything that was ever published, if there is a broker. -/
def sent (x : Exchange) : List BrokerEvent := (x.broker?.map Broker.sent).getD []

/-- How often something is there that was handed on. -/
def tally (x : Exchange) : Handing → Nat
  | .written session frame => (x.waiting session).count frame
  | .handedOver shard handover => (x.traffic shard).forward.count handover
  | .published event => x.sent.count event

/-- From one exchange to another something was handed on. -/
def Hands (x y : Exchange) (g : Handing) : Prop := x.tally g < y.tally g

instance (x y : Exchange) (g : Handing) : Decidable (x.Hands y g) :=
  inferInstanceAs (Decidable (_ < _))

/-- What is handed on because of a task: when it is routed, when a frame of it that was handed over is
routed by the other shard, and when the consumer handles an event of it. The other shard and the
consumer may find anything when they come to it. -/
inductive Spreads (x : Exchange) (shard : Nat) (task : Task) : Handing → Prop
  | routed {g : Handing} (hands : x.Hands (x.routeTask shard task) g) : Spreads x shard task g
  | relayed {owner : Nat} {handover : Handover} {e : Envelope} {y : Exchange} {g : Handing}
      (h : Spreads x shard task (.handedOver owner handover))
      (hdecode : Envelope.decode handover.frame = .ok e) (hkeyed : y.ground.Keyed)
      (hands : y.Hands (y.routeTask owner
        { envelope := e, raw := handover.frame, origin := .forwarded handover.target }) g) :
      Spreads x shard task g
  | consumed {event : BrokerEvent} {y : Exchange} {g : Handing}
      (h : Spreads x shard task (.published event)) (hkeyed : y.ground.Keyed)
      (hands : y.Hands (y.handlePublished event) g) : Spreads x shard task g

/-- Every frame that is handed on because of a task is of a kind. -/
def SpreadsOnly (P : Bytes → Prop) (x : Exchange) (shard : Nat) (task : Task) : Prop :=
  ∀ g, x.Spreads shard task g → ∀ frame, g.frame? = some frame → P frame

/-! ## What hands on frames of a kind -/

/-- Where every connection is kept under its own session, only frames of a kind are handed on, and
every connection still is. -/
def HandsOnly (P : Bytes → Prop) (x y : Exchange) : Prop :=
  x.ground.Keyed → y.ground.Keyed ∧
    ∀ g, x.Hands y g → ∀ frame, g.frame? = some frame → P frame

variable {P : Bytes → Prop} {x y z : Exchange} {session : Session} {shard : Nat} {frame : Bytes}

theorem HandsOnly.trans (h : x.HandsOnly P y) (h' : y.HandsOnly P z) : x.HandsOnly P z := by
  intro hkeyed
  obtain ⟨hkeyed, hxy⟩ := h hkeyed
  obtain ⟨hkeyed, hyz⟩ := h' hkeyed
  refine ⟨hkeyed, fun g hands => ?_⟩
  by_cases hfirst : x.tally g < y.tally g
  · exact hxy g hfirst
  · exact hyz g (Nat.lt_of_le_of_lt (Nat.not_lt.1 hfirst) hands)

/-- Where queues and connections stay as they are and nothing is published, nothing is handed on. -/
theorem handsOnly_of_same (hconnections : y.connections = x.connections)
    (houtline : y.outline = x.outline) (hsent : y.sent = x.sent) : x.HandsOnly P y := by
  intro hkeyed
  refine ⟨keyed_of_connections hconnections hkeyed, fun g hands => absurd hands ?_⟩
  have htally : y.tally g = x.tally g := by
    cases g with
    | written session frame =>
        exact congrArg (fun o : Outline => (o.waiting session).count frame) houtline
    | handedOver shard handover =>
        exact congrArg (fun o : Outline => (o.traffic shard).forward.count handover) houtline
    | published event => exact congrArg (List.count event) hsent
  rw [Hands, htally]
  exact Nat.lt_irrefl _

theorem HandsOnly.refl (x : Exchange) : x.HandsOnly P x := handsOnly_of_same rfl rfl rfl

/-- What is more often in a list with one more element is that element. -/
theorem eq_of_count_lt {α : Type} [BEq α] [LawfulBEq α] {a b : α} {l : List α}
    (h : l.count a < (l ++ [b]).count a) : a = b := by
  by_contra hne
  rw [List.count_append, List.count_singleton, if_neg (by simpa using Ne.symm hne)] at h
  exact Nat.lt_irrefl _ h

theorem handsOnly_sendTo (x : Exchange) (session : Session) (hframe : P frame) :
    x.HandsOnly P (x.sendTo session frame).2 := by
  rcases x.sendTo_snd_cases session frame with heq | ⟨c, c', hc, hsend, heq⟩
  · rw [heq]
    exact .refl x
  · intro hkeyed
    obtain ⟨hitems, hsession⟩ := items_of_send hsend
    rw [heq]
    refine ⟨keyed_putConnection hkeyed c', fun g hands frame' hframe' => ?_⟩
    cases g with
    | written τ frame'' =>
        change (x.waiting τ).count frame'' < ((x.putConnection c').waiting τ).count frame'' at hands
        rw [waiting_putConnection] at hands
        split at hands
        · next hτ =>
            rw [hτ, hsession, session_eq hkeyed hc, waiting, hc, hitems] at hands
            obtain rfl := Option.some.inj hframe'
            have hsame : frame'' = frame := eq_of_count_lt hands
            rw [hsame]
            exact hframe
        · exact absurd hands (Nat.lt_irrefl _)
    | handedOver owner handover => exact absurd hands (Nat.lt_irrefl _)
    | published event => exact absurd hands (Nat.lt_irrefl _)

theorem handsOnly_handOver (x : Exchange) (owner : Nat) (target : String) (hframe : P frame) :
    x.HandsOnly P (x.handOver owner target frame).2 := by
  rw [handOver]
  cases hs : x.shard? owner with
  | none => exact .refl x
  | some s =>
      dsimp only
      cases hoffer : s.forward.offer { target, frame } with
      | error refusal =>
          cases refusal with
          | full => exact .refl x
          | closed => exact .refl x
      | ok forward =>
          intro hkeyed
          refine ⟨keyed_of_connections rfl hkeyed, fun g hands frame' hframe' => ?_⟩
          cases g with
          | written τ frame'' => exact absurd hands (Nat.lt_irrefl _)
          | handedOver owner' handover =>
              change (x.traffic owner').forward.count handover
                < ((x.mapShard owner _).traffic owner').forward.count handover at hands
              rw [traffic_mapShard] at hands
              split at hands
              · next howner =>
                  have hbefore : x.traffic owner = s.traffic := traffic_of_shard? hs
                  rw [howner, hs, hbefore] at hands
                  change s.forward.items.count handover < forward.items.count handover at hands
                  rw [items_of_offer hoffer] at hands
                  obtain rfl := eq_of_count_lt hands
                  obtain rfl := Option.some.inj hframe'
                  exact hframe
              · exact absurd hands (Nat.lt_irrefl _)
          | published event => exact absurd hands (Nat.lt_irrefl _)

theorem handsOnly_publish {event : BrokerEvent}
    (hevent : ∀ frame, event.frame? = some frame → P frame) (h : x.publish event = some y) :
    x.HandsOnly P y := by
  rw [publish] at h
  split at h
  · next broker hpublishing =>
      split at h
      · next broker' htaken =>
          obtain rfl := Option.some.inj h
          intro hkeyed
          refine ⟨keyed_of_connections rfl hkeyed, fun g hands frame hframe => ?_⟩
          cases g with
          | written τ frame' => exact absurd hands (Nat.lt_irrefl _)
          | handedOver owner handover => exact absurd hands (Nat.lt_irrefl _)
          | published event' =>
              have hbefore : x.sent = broker.sent := by
                rw [sent, broker?, hpublishing]
                rfl
              have hafter : broker'.sent = broker.sent ++ [event] := by
                rw [Broker.publish] at htaken
                split at htaken
                · cases htaken
                · obtain rfl := Option.some.inj htaken
                  rfl
              change x.sent.count event' < broker'.sent.count event' at hands
              rw [hbefore, hafter] at hands
              rw [eq_of_count_lt hands] at hframe
              exact hevent frame hframe
      · cases h
  · cases h

/-- **Whatever routing does with frames of a kind hands on these only.** -/
theorem bears_handsOnly (P : Bytes → Prop) : Routing.Bears P (HandsOnly P) where
  refl := .refl
  trans := .trans
  attempt x call := by
    obtain ⟨n, hn⟩ := x.attempt_snd call
    rw [hn]
    exact handsOnly_of_same rfl rfl rfl
  fresh _ := handsOnly_of_same rfl rfl rfl
  count x shard f := by
    refine handsOnly_of_same rfl (outline_mapShard_of_same ?_ ..) rfl
    exact fun _ => rfl
  assemble x shard assembler := by
    refine handsOnly_of_same rfl (outline_mapShard_of_same ?_ ..) rfl
    exact fun _ => rfl
  persist _ _ := handsOnly_of_same rfl rfl rfl
  sendTo x session _ hframe := handsOnly_sendTo x session hframe
  handOver x owner target _ hframe := handsOnly_handOver x owner target hframe
  publish hevent h := handsOnly_publish hevent h
  ask _ _ := handsOnly_of_same rfl rfl rfl

/-- A task hands on frames of the kind that it may send. -/
theorem handsOnly_routeTask {task : Task} (htask : Routing.Suits P x shard task) :
    x.HandsOnly P (x.routeTask shard task) :=
  Routing.keeps_routeTask (bears_handsOnly P) htask

theorem handsOnly_stopConsumer (x : Exchange) : x.HandsOnly P x.stopConsumer := by
  rw [stopConsumer]
  split
  · next subscriber broker _ hpublishing =>
      refine handsOnly_of_same rfl rfl ?_
      rw [sent, sent, broker?, broker?, hpublishing]
      rfl
  · exact handsOnly_of_same rfl rfl rfl

/-- The consumer hands on the frames that it is given. -/
theorem handsOnly_handlePublished {event : BrokerEvent}
    (hevent : ∀ frame, event.frame? = some frame → P frame) (x : Exchange) :
    x.HandsOnly P (x.handlePublished event) :=
  Routing.keeps_handlePublished (bears_handsOnly P) handsOnly_stopConsumer hevent x

/-! ## The frames of a task -/

/-- Every frame of a message that reads as that message is within the limits. -/
theorem sized_of_mem_framed {limits : FragmentLimits} {fresh : String} {now : Int64} {e : Envelope}
    {raw : Bytes} {frames : List Bytes} (hframed : e.framed limits fresh now raw = .ok frames)
    (hmeasured : (e.completed fresh now).encode.length < 256 ^ 8)
    (hdecode : Envelope.decode raw = .ok e) (hframe : frame ∈ frames) : Sized limits frame := by
  rcases Envelope.mem_framed hframed hframe with ⟨-, f, hf, rfl⟩ | ⟨hwhole, rfl⟩
  · refine ⟨f, Envelope.decode_encode (Envelope.fits_of_mem_fragments hmeasured hf), Or.inl ?_⟩
    obtain ⟨index, share, -, rfl⟩ := Envelope.mem_fragments hf
    rfl
  · refine ⟨e, hdecode, ?_⟩
    -- what is not split is a fragment already, or not too large
    rw [Envelope.isSplit, Envelope.isOversized, Bool.and_eq_false_iff] at hwhole
    rcases hwhole with hfragment | hsmall
    · exact Or.inl (by simpa using hfragment)
    · exact Or.inr (Nat.not_lt.1 (of_decide_eq_false hsmall))

/-- The frames that a shard makes of a message are of a kind if every frame of the message is. -/
theorem cuts_of_framed {s : Shard} {e : Envelope} {raw : Bytes} (hs : x.shard? shard = some s)
    (h : ∀ frames, e.framed s.assembler.limits (formatId x.issued) x.timestamp raw = .ok frames →
      ∀ frame ∈ frames, P frame) : Routing.Cuts P x shard e raw := by
  intro services copy given frames s' hrun frame hframe
  have hs' : ({ x with services } : Exchange).shard? shard = some s := hs
  rw [Routing.run_outboundFrames hs'] at hrun
  have hresult := congrArg Prod.fst hrun
  cases hframed : e.framed s.assembler.limits (formatId x.issued) x.timestamp raw with
  | error fault =>
      simp only [timestamp] at hframed hresult
      rw [hframed] at hresult
      cases hresult
  | ok frames' =>
      have hall := h frames' hframed
      simp only [timestamp] at hframed hresult
      rw [hframed] at hresult
      obtain rfl := Except.ok.inj hresult
      exact hall frame hframe

/-- The octets that an envelope is written in read as it, if their length can be told in eight octets,
also when it is completed. -/
theorem decode_of_made {fresh : String} {now : Int64} {e : Envelope} {raw : Bytes}
    (h : Envelope.decode raw = .ok e ∨ raw = e.encode)
    (hmeasured : (e.completed fresh now).encode.length < 256 ^ 8) : Envelope.decode raw = .ok e := by
  rcases h with hdecode | rfl
  · exact hdecode
  · refine Envelope.decode_encode (Envelope.fits_of_length (Nat.lt_of_le_of_lt ?_ hmeasured))
    rw [Envelope.length_encode, Envelope.length_encode]
    exact Envelope.encodedLength_le_completed _ _ _

/-- A task that came in, as sessions and the assistant make them: its octets are those that its
envelope was read from, or those that it is written in. -/
structure Arrived (x : Exchange) (task : Task) : Prop where
  inbound : task.origin = .inbound
  raw : Envelope.decode task.raw = .ok task.envelope ∨ task.raw = task.envelope.encode
  /-- Its length can be told in eight octets, also when it is completed. -/
  measured : (task.envelope.completed (formatId x.issued) x.timestamp).encode.length < 256 ^ 8

/-- Somebody in the audience of a shard takes a frame. -/
def IsHeard (x : Exchange) (shard : Nat) (frame : Bytes) : Prop :=
  ∃ session ∈ x.audience shard, (x.sendTo session frame).1 = .ok ()

variable {task : Task} {s : Shard}

theorem Arrived.decode (h : x.Arrived task) : Envelope.decode task.raw = .ok task.envelope :=
  decode_of_made h.raw h.measured

/-- But for a notice that is too large, a task may send frames within the limits only. -/
theorem Arrived.suits (htask : x.Arrived task) (hs : x.shard? shard = some s)
    (hnot : ¬ task.IsFlood s.assembler.limits) :
    Routing.Suits (Sized s.assembler.limits) x shard task where
  whole h := by
    have hnotice : task.envelope.isNotice = true := h.resolve_left fun hne => hne htask.inbound
    have hwhole : ¬ task.envelope.isSplit s.assembler.limits = true :=
      fun hsplit => hnot ⟨hnotice, hsplit⟩
    exact sized_of_mem_framed (if_neg hwhole) htask.measured htask.decode (List.mem_singleton_self _)
  cut _ _ := cuts_of_framed hs fun _ hframed _ hframe =>
    sized_of_mem_framed hframed htask.measured htask.decode hframe

/-- **What spreads from a task is of the kind that the task may send.** The other shard and the
consumer hand on what they are given. -/
theorem spreadsOnly_of_suits (hkeyed : x.ground.Keyed) (htask : Routing.Suits P x shard task) :
    x.SpreadsOnly P shard task := by
  intro g h
  induction h with
  | routed hands => exact (handsOnly_routeTask htask hkeyed).2 _ hands
  | @relayed owner handover e y g h hdecode hkeyed' hands ih =>
      refine (handsOnly_routeTask ⟨fun _ => ih _ rfl, ?_⟩ hkeyed').2 g hands
      exact fun horigin => Origin.noConfusion horigin
  | @consumed event y g h hkeyed' hands ih =>
      exact (handsOnly_handlePublished ih y hkeyed').2 g hands

/-! ## Notices -/

theorem routeTask_of_notice (hinbound : task.origin = .inbound)
    (hnotice : task.envelope.isNotice = true) (x : Exchange) (shard : Nat) :
    x.routeTask shard task = x.broadcast shard task.raw := by
  rw [routeTask, Routing.route, hinbound]
  dsimp only
  rw [hnotice]
  rfl

/-- A notice that nobody takes changes nothing. -/
theorem broadcast_of_not_heard (h : ¬ x.IsHeard shard frame) : x.broadcast shard frame = x := by
  have hrefused : ∀ session ∈ x.audience shard, (x.sendTo session frame).2 = x := by
    intro session hsession
    rcases x.sendTo_snd_cases session frame with heq | ⟨c, c', hc, hsend, -⟩
    · exact heq
    · refine absurd ⟨session, hsession, ?_⟩ h
      rw [sendTo, hc]
      dsimp only
      rw [hsend]
  rw [broadcast]
  generalize x.audience shard = sessions at hrefused
  induction sessions with
  | nil => rfl
  | cons session sessions ih =>
      obtain ⟨hfirst, hrest⟩ := List.forall_mem_cons.1 hrefused
      rw [List.foldl_cons, hfirst]
      exact ih hrest

theorem extends_foldl_sendTo (x : Exchange) (frame : Bytes) (sessions : List Session) :
    x.Extends (sessions.foldl (fun x session => (x.sendTo session frame).2) x) := by
  induction sessions generalizing x with
  | nil => exact .refl x
  | cons session sessions ih => exact (extends_sendTo x session frame).trans (ih _)

/-- Whether a frame is taken is up to the connection. -/
theorem sendTo_fst_congr (h : y.connection? session = x.connection? session) (frame : Bytes) :
    (y.sendTo session frame).1 = (x.sendTo session frame).1 := by
  rw [sendTo, sendTo, h]
  cases x.connection? session with
  | none => rfl
  | some c =>
      dsimp only
      cases c.send frame with
      | error fault => rfl
      | ok c' => rfl

/-- Sending to one connection leaves the others alone. -/
theorem connection?_sendTo_of_ne (hkeyed : x.ground.Keyed) {τ : Session} (hne : session ≠ τ)
    (frame : Bytes) : (x.sendTo τ frame).2.connection? session = x.connection? session := by
  rcases x.sendTo_snd_cases τ frame with heq | ⟨c, c', hc, hsend, heq⟩
  · rw [heq]
  · rw [heq, connection?_putConnection, (items_of_send hsend).2, session_eq hkeyed hc, if_neg hne]

theorem hands_sendTo (hkeyed : x.ground.Keyed) (htakes : (x.sendTo session frame).1 = .ok ()) :
    x.Hands (x.sendTo session frame).2 (.written session frame) := by
  rw [sendTo] at htakes ⊢
  cases hc : x.connection? session with
  | none =>
      rw [hc] at htakes
      cases htakes
  | some c =>
      rw [hc] at htakes
      dsimp only at htakes ⊢
      cases hsend : c.send frame with
      | error fault =>
          rw [hsend] at htakes
          cases htakes
      | ok c' =>
          obtain ⟨hitems, hsession⟩ := items_of_send hsend
          have hwaiting : (x.putConnection c').waiting session = x.waiting session ++ [frame] := by
            rw [waiting_putConnection, hsession, session_eq hkeyed hc, if_pos rfl, hitems, waiting,
              hc]
            rfl
          show (x.waiting session).count frame < ((x.putConnection c').waiting session).count frame
          rw [hwaiting, List.count_append, List.count_singleton_self]
          exact Nat.lt_succ_self _

/-- Whoever takes a frame has it, whoever else takes it before or after. -/
theorem hands_foldl_sendTo (hkeyed : x.ground.Keyed) {sessions : List Session}
    (hmem : session ∈ sessions) (htakes : (x.sendTo session frame).1 = .ok ()) :
    x.Hands (sessions.foldl (fun x session => (x.sendTo session frame).2) x)
      (.written session frame) := by
  induction sessions generalizing x with
  | nil => exact absurd hmem List.not_mem_nil
  | cons τ sessions ih =>
      have hkeyed' := (extends_sendTo x τ frame hkeyed).1
      rw [List.foldl_cons]
      by_cases hτ : session = τ
      · -- what it has taken stays there
        subst hτ
        have hfirst := hands_sendTo hkeyed htakes
        have hrest := (extends_foldl_sendTo _ frame sessions hkeyed').2.waiting session
        exact Nat.lt_of_lt_of_le hfirst (hrest.sublist.count_le _)
      · have hsame := connection?_sendTo_of_ne hkeyed hτ frame
        have hlater := ih hkeyed' ((List.mem_cons.1 hmem).resolve_left hτ)
          ((sendTo_fst_congr hsame frame).trans htakes)
        have hwaiting : (x.sendTo τ frame).2.waiting session = x.waiting session := by
          rw [waiting, waiting, hsame]
        rw [Hands, tally, hwaiting] at hlater
        exact hlater

/-- **Everything that is handed on because of a task that came in is within the limits, unless the
task is a notice that is too large and somebody takes it.** -/
theorem sized_iff (hkeyed : x.ground.Keyed) (hs : x.shard? shard = some s) (htask : x.Arrived task) :
    x.SpreadsOnly (Sized s.assembler.limits) shard task ↔
      ¬ (task.IsFlood s.assembler.limits ∧ x.IsHeard shard task.raw) := by
  constructor
  · rintro hall ⟨⟨hnotice, hsplit⟩, session, hsession, htakes⟩
    have hhands := hands_foldl_sendTo hkeyed hsession htakes
    have hspreads : x.Spreads shard task (.written session task.raw) := by
      refine .routed ?_
      rw [routeTask_of_notice htask.inbound hnotice]
      exact hhands
    obtain ⟨e, hdecode, hsized⟩ := hall _ hspreads _ rfl
    obtain rfl := Except.ok.inj (htask.decode.symm.trans hdecode)
    rw [Envelope.isSplit, Envelope.isOversized, Bool.and_eq_true, decide_eq_true_eq] at hsplit
    rcases hsized with hfragment | hsmall
    · rw [hfragment] at hsplit
      exact Bool.false_ne_true hsplit.1
    · exact absurd hsplit.2 (Nat.not_lt.2 hsmall)
  · intro hnot
    by_cases hflood : task.IsFlood s.assembler.limits
    · -- nobody takes the notice, so routing it changes nothing
      have hsame : x.routeTask shard task = x := by
        rw [routeTask_of_notice htask.inbound hflood.1]
        exact broadcast_of_not_heard fun hheard => hnot ⟨hflood, hheard⟩
      have hnothing : ∀ g, ¬ x.Spreads shard task g := by
        intro g h
        induction h with
        | routed hands =>
            rw [hsame] at hands
            exact Nat.lt_irrefl _ hands
        | relayed _ _ _ _ ih => exact ih
        | consumed _ _ _ ih => exact ih
      exact fun g h => absurd h (hnothing g)
    · exact spreadsOnly_of_suits hkeyed (htask.suits hs hflood)

/-- One shard, and frames of a hundred octets. -/
def narrowConfig : Config :=
  { pool.initialShards := 1, pool.maxShards := 1, fragment := { maxFragmentSize := 100 } }

/-- Ann is connected. -/
def narrow : Exchange :=
  ((Lobby.start (.new narrowConfig .inMemory 0)).run [.accept "ann" none 8, .register 0]).exchange

theorem keyed_narrow : narrow.ground.Keyed := by
  have hvacant : (Exchange.new narrowConfig .inMemory 0).Vacant := vacant_new _ _ rfl rfl
  have hpermits : (Lobby.start (.new narrowConfig .inMemory 0)).Permits
      [.accept "ann" none 8, .register 0] := by decide
  obtain ⟨⟨m, hm⟩, -⟩ := Lobby.refines_run_some (Lobby.refines_start hvacant) hpermits
  exact hm.sound.keyed

/-- A message from Ann that a frame does not hold. -/
def lengthy (recipient : String) : Envelope :=
  { Envelope.direct "ann" recipient .text "0123456789012345678901234567890123456789" 1 with
    messageId := "m1" }

theorem arrived_lengthy (recipient : String) (hsize : recipient.utf8ByteSize ≤ 3) :
    narrow.Arrived (inbound (lengthy recipient) (lengthy recipient).encode) where
  inbound := rfl
  raw := Or.inr rfl
  measured := by
    have hcompleted : (lengthy recipient).completed (formatId narrow.issued) narrow.timestamp
        = lengthy recipient := rfl
    have hlength : (lengthy recipient).encodedLength = 126 + recipient.utf8ByteSize := by
      rw [Envelope.encodedLength]
      show Envelope.emptySize + 3 + recipient.utf8ByteSize + 0 + 40 + 2 + 0 + 0 = _
      rw [Envelope.emptySize]
      omega
    show ((lengthy recipient).completed _ _).encode.length < _
    rw [hcompleted, Envelope.length_encode, hlength]
    omega

/-- A long message from Ann to herself goes out in fragments only. -/
theorem sized_of_lengthy :
    narrow.SpreadsOnly (Sized narrow.config.fragment.limits) 0
      (inbound (lengthy "ann") (lengthy "ann").encode) :=
  have hs : narrow.shard? 0 = some ((narrow.shard? 0).get rfl) := rfl
  (sized_iff keyed_narrow hs (arrived_lengthy "ann" (by decide))).2
    fun h => absurd h.1.1 (by decide)

/-- A long notice is written to Ann as it is. -/
theorem not_sized_of_notice :
    ∃ session frame, narrow.Spreads 0 (inbound (lengthy "") (lengthy "").encode)
      (.written session frame) ∧ ¬ Sized narrow.config.fragment.limits frame := by
  refine ⟨0, (lengthy "").encode, .routed ?_, ?_⟩
  · rw [routeTask_of_notice rfl rfl]
    exact hands_foldl_sendTo keyed_narrow (by decide) (by rfl)
  · intro hsized
    obtain ⟨e, hdecode, hfits⟩ := hsized
    obtain rfl := Except.ok.inj ((arrived_lengthy "" (by decide)).decode.symm.trans hdecode)
    exact absurd hfits (by decide)

end Exchange

end Switchboard
