import Switchboard.Proofs.Membership.Effects
import Switchboard.Proofs.Routing.Size
import Switchboard.Proofs.Routing.Trail

/-!
# What comes in

Tasks wait at the shards and are in their processors' hands; frames wait to be taken over by another
shard, or were published. `Acquires` says of an exchange and a later one of what kind the tasks and
frames are that came in between. Nothing at all comes in when clients come and go, when writers fetch
frames, or when anything is taken up or put down. What readers, coordinators and the assistant bring
are tasks whose octets are those of their envelopes (`acquires_act`), and routing a task brings no
task, and no frames but those that the task may send.
-/

namespace Switchboard

/-- The tasks that wait or were taken. -/
def Traffic.tasks (t : Traffic) : List Task := t.work ++ t.inHand

/-- A frame reads as some envelope. -/
def Readable (frame : Bytes) : Prop := ∃ e, Envelope.decode frame = .ok e

/-- A task as readers, coordinators and the assistant make it: its octets are those that its envelope
was read from, or those that it is written in. -/
def Task.IsMade (task : Task) : Prop :=
  Envelope.decode task.raw = .ok task.envelope ∨ task.raw = task.envelope.encode

namespace Broker

variable {b : Broker} {subscriber : Nat} {event : BrokerEvent}

/-- Reading an event does not take it back. -/
theorem sent_read (b : Broker) (subscriber : Nat) : (b.read subscriber).2.sent = b.sent := by
  rw [read]
  split
  · rfl
  · dsimp only
    split
    · rfl
    · split
      · rfl
      · rfl

/-- What is read was sent. -/
theorem mem_sent_of_read (h : (b.read subscriber).1 = .event event) : event ∈ b.sent := by
  rw [read] at h
  split at h
  · cases h
  · dsimp only at h
    split at h
    · cases h
    · split at h
      · next hevent =>
          obtain rfl := Reading.event.inj h
          exact List.mem_of_getElem? hevent
      · cases h

end Broker

namespace Exchange

/-- A task waits at a shard, or one of its processors has taken it. -/
def HasTask (x : Exchange) (task : Task) : Prop := ∃ shard, task ∈ (x.traffic shard).tasks

/-- The frames that were published. -/
def published (x : Exchange) : List Bytes := x.sent.filterMap BrokerEvent.frame?

/-- A frame waits at the shard that it was handed over to, or was published. -/
def HasFrame (x : Exchange) (frame : Bytes) : Prop :=
  (∃ shard, ∃ handover ∈ (x.traffic shard).forward, handover.frame = frame) ∨ frame ∈ x.published

/-- From one exchange to another, tasks and frames of a kind came in, and no others. -/
structure Acquires (T : Task → Prop) (P : Bytes → Prop) (x y : Exchange) : Prop where
  task : ∀ task, y.HasTask task → x.HasTask task ∨ T task
  frame : ∀ frame, y.HasFrame frame → x.HasFrame frame ∨ P frame

variable {T T' : Task → Prop} {P P' : Bytes → Prop} {x y z : Exchange} {shard : Nat}
  {session : Session} {frame : Bytes}

/-- What comes in first and then is all that comes in. -/
theorem Acquires.trans (h : Acquires T P x y) (h' : Acquires T P y z) : Acquires T P x z where
  task task htask := (h'.task task htask).elim (h.task task) Or.inr
  frame frame hframe := (h'.frame frame hframe).elim (h.frame frame) Or.inr

theorem Acquires.mono (h : Acquires T P x y) (hT : ∀ task, T task → T' task)
    (hP : ∀ frame, P frame → P' frame) : Acquires T' P' x y where
  task task htask := (h.task task htask).imp_right (hT task)
  frame frame hframe := (h.frame frame hframe).imp_right (hP frame)

/-- What comes in comes in at some shard, if nothing is published. -/
theorem acquires_of_traffic
    (htasks : ∀ shard, ∀ task ∈ (y.traffic shard).tasks, task ∈ (x.traffic shard).tasks ∨ T task)
    (hforward : ∀ shard, ∀ handover ∈ (y.traffic shard).forward,
      handover ∈ (x.traffic shard).forward ∨ P handover.frame)
    (hpublished : y.published = x.published) : Acquires T P x y where
  task task htask := by
    obtain ⟨shard, hmem⟩ := htask
    exact (htasks shard task hmem).imp_left fun h => ⟨shard, h⟩
  frame frame hframe := by
    rcases hframe with ⟨shard, handover, hmem, rfl⟩ | hmem
    · exact (hforward shard handover hmem).imp_left fun h => Or.inl ⟨shard, handover, h, rfl⟩
    · exact Or.inl (Or.inr (hpublished ▸ hmem))

/-- Where the same waits and the same was published, nothing came in. -/
theorem acquires_of_same (htraffic : y.traffic = x.traffic) (hpublished : y.published = x.published) :
    Acquires T P x y :=
  acquires_of_traffic (fun shard task h => Or.inl (by rwa [htraffic] at h))
    (fun shard handover h => Or.inl (by rwa [htraffic] at h)) hpublished

theorem Acquires.refl (x : Exchange) : Acquires T P x x := acquires_of_same rfl rfl

theorem acquires_of_outline (h : y.outline = x.outline) (hpublished : y.published = x.published) :
    Acquires T P x y :=
  acquires_of_same (congrArg Outline.traffic h) hpublished

/-- What is at a shard is at one of those that there are. -/
theorem mem_traffic_iff {α : Type} (part : Traffic → List α) (hpart : part {} = []) {a : α} :
    (∃ shard, a ∈ part (x.traffic shard)) ↔ ∃ s ∈ x.pool.shards, a ∈ part s.traffic := by
  constructor
  · rintro ⟨shard, hmem⟩
    cases hs : x.shard? shard with
    | none =>
        have hnone : x.traffic shard = {} := traffic_of_none hs
        rw [hnone, hpart] at hmem
        cases hmem
    | some s =>
        have hsome : x.traffic shard = s.traffic := traffic_of_shard? hs
        rw [hsome] at hmem
        exact ⟨s, List.mem_of_getElem? hs, hmem⟩
  · rintro ⟨s, hs, hmem⟩
    obtain ⟨shard, hshard⟩ := List.mem_iff_getElem?.1 hs
    have hsome : x.traffic shard = s.traffic := traffic_of_shard? hshard
    exact ⟨shard, hsome ▸ hmem⟩

/-- Shards at which nothing new waits, or nothing at all. -/
theorem acquires_of_shards (h : ∀ s ∈ y.pool.shards, s ∈ x.pool.shards ∨ s.traffic = {})
    (hpublished : y.published = x.published) : Acquires T P x y where
  task task htask := by
    obtain ⟨s, hs, hmem⟩ := (mem_traffic_iff Traffic.tasks rfl).1 htask
    rcases h s hs with hold | hnothing
    · exact Or.inl ((mem_traffic_iff Traffic.tasks rfl).2 ⟨s, hold, hmem⟩)
    · rw [hnothing] at hmem
      cases hmem
  frame frame hframe := by
    rcases hframe with ⟨shard, handover, hmem, rfl⟩ | hmem
    · obtain ⟨s, hs, hmem⟩ := (mem_traffic_iff Traffic.forward rfl).1 ⟨shard, hmem⟩
      rcases h s hs with hold | hnothing
      · obtain ⟨shard, hmem⟩ := (mem_traffic_iff Traffic.forward rfl).2 ⟨s, hold, hmem⟩
        exact Or.inl (Or.inl ⟨shard, handover, hmem, rfl⟩)
      · rw [hnothing] at hmem
        cases hmem
    · exact Or.inl (Or.inr (hpublished ▸ hmem))

/-- What comes in at one shard. -/
theorem acquires_mapShard {s : Shard} (hs : x.shard? shard = some s) {f : Shard → Shard}
    (htasks : ∀ task ∈ (f s).traffic.tasks, task ∈ s.traffic.tasks ∨ T task)
    (hforward : ∀ handover ∈ (f s).traffic.forward,
      handover ∈ s.traffic.forward ∨ P handover.frame) : Acquires T P x (x.mapShard shard f) := by
  have hbefore : x.traffic shard = s.traffic := traffic_of_shard? hs
  have hafter : (x.mapShard shard f).traffic shard = (f s).traffic := by
    rw [traffic_mapShard, if_pos rfl, hs]
    rfl
  -- no other shard is touched
  have hothers : ∀ id, id ≠ shard → (x.mapShard shard f).traffic id = x.traffic id := by
    intro id hid
    rw [traffic_mapShard, if_neg hid]
  refine acquires_of_traffic (fun id task h => ?_) (fun id handover h => ?_) rfl
  · by_cases hid : id = shard
    · rw [hid, hafter] at h
      rw [hid, hbefore]
      exact htasks task h
    · rw [hothers id hid] at h
      exact Or.inl h
  · by_cases hid : id = shard
    · rw [hid, hafter] at h
      rw [hid, hbefore]
      exact hforward handover h
    · rw [hothers id hid] at h
      exact Or.inl h

/-- What changes of a shard need not be what waits there. -/
theorem acquires_mapShard_of_same {f : Shard → Shard} (hf : ∀ s, (f s).traffic = s.traffic)
    (x : Exchange) (shard : Nat) : Acquires T P x (x.mapShard shard f) :=
  acquires_of_outline (outline_mapShard_of_same hf ..) rfl

theorem acquires_mapSocket (x : Exchange) (session : Session) (f : Socket → Socket) :
    Acquires T P x (x.mapSocket session f) := by
  rw [mapSocket]
  split
  · exact acquires_of_same rfl rfl
  · exact .refl x

theorem acquires_putConnection (x : Exchange) (c : Connection) :
    Acquires T P x (x.putConnection c) := acquires_of_same rfl rfl

theorem acquires_mapConnection (x : Exchange) (session : Session) (f : Connection → Connection) :
    Acquires T P x (x.mapConnection session f) := by
  rw [mapConnection]
  split
  · exact acquires_putConnection x _
  · exact .refl x

/-- A frame that is sent to a connection neither waits at a shard nor is published. -/
theorem acquires_sendTo (x : Exchange) (session : Session) (frame : Bytes) :
    Acquires T P x (x.sendTo session frame).2 := by
  rcases x.sendTo_snd_cases session frame with heq | ⟨c, c', hc, hsend, heq⟩
  · rw [heq]
    exact .refl x
  · rw [heq]
    exact acquires_putConnection x c'

/-! ## Routing -/

/-- What is handed over comes in at the shard of its target. -/
theorem acquires_handOver (x : Exchange) (owner : Nat) (target : String) (hframe : P frame) :
    Acquires T P x (x.handOver owner target frame).2 := by
  rw [handOver]
  cases hs : x.shard? owner with
  | none => exact .refl x
  | some s =>
      dsimp only
      cases hoffer : s.forward.offer { target, frame } with
      | error refusal =>
          cases refusal with
          | full => exact .refl x
          | closed => exact .refl x
      | ok forward =>
          refine acquires_mapShard hs (fun task h => Or.inl h) fun handover h => ?_
          change handover ∈ forward.items at h
          rw [items_of_offer hoffer] at h
          refine (List.mem_append.1 h).imp_right fun hnew => ?_
          obtain rfl := List.mem_singleton.1 hnew
          exact hframe

/-- What is published comes in at the broker. -/
theorem acquires_publish {event : BrokerEvent}
    (hevent : ∀ frame, event.frame? = some frame → P frame) (h : x.publish event = some y) :
    Acquires T P x y := by
  rw [publish] at h
  split at h
  · next broker hpublishing =>
      split at h
      · next broker' htaken =>
          obtain rfl := Option.some.inj h
          have hbefore : x.sent = broker.sent := by
            rw [sent, broker?, hpublishing]
            rfl
          -- what a broker takes comes behind what it was sent before
          have hafter : broker'.sent = broker.sent ++ [event] := by
            rw [Broker.publish] at htaken
            split at htaken
            · cases htaken
            · obtain rfl := Option.some.inj htaken
              rfl
          refine ⟨fun task htask => Or.inl htask, fun frame hframe => ?_⟩
          rcases hframe with hforward | hmem
          · exact Or.inl (Or.inl hforward)
          · change frame ∈ broker'.sent.filterMap BrokerEvent.frame? at hmem
            rw [hafter, List.filterMap_append, List.mem_append, ← hbefore] at hmem
            refine hmem.imp Or.inr fun hnew => ?_
            obtain ⟨event', hevent', hframe⟩ := List.mem_filterMap.1 hnew
            obtain rfl := List.mem_singleton.1 hevent'
            exact hevent frame hframe
      · cases h
  · cases h

/-- **Routing brings no task, and no frames but those that are sent.** -/
theorem bears_acquires (T : Task → Prop) (P : Bytes → Prop) : Routing.Bears P (Acquires T P) where
  refl := .refl
  trans := .trans
  attempt x call := by
    obtain ⟨n, hn⟩ := x.attempt_snd call
    rw [hn]
    exact acquires_of_same rfl rfl
  fresh _ := acquires_of_same rfl rfl
  count x id f := by
    refine acquires_mapShard_of_same ?_ x id
    exact fun _ => rfl
  assemble x id assembler := by
    refine acquires_mapShard_of_same ?_ x id
    exact fun _ => rfl
  persist _ _ := acquires_of_same rfl rfl
  sendTo x session frame _ := acquires_sendTo x session frame
  handOver x owner target _ hframe := acquires_handOver x owner target hframe
  publish hevent h := acquires_publish hevent h
  ask _ _ := acquires_of_same rfl rfl

/-! ## Shards that come and go -/

theorem traffic_new (id : Nat) (config : Config) (ticks : Moment) :
    (Shard.new id config ticks).traffic = {} := by
  refine Traffic.ext rfl ?_ rfl
  show (if _ then _ else _ : Queue Handover).items = []
  split
  · rfl
  · rfl

/-- A new shard has nothing to do. -/
theorem acquires_place (x : Exchange) : Acquires T P x x.place.2 := by
  have hassign : ∀ y : Exchange, Acquires T P y y.assign.2 := by
    intro y
    rcases assign_cases y with ⟨s, -, h⟩ | ⟨fault, h⟩
    · rw [h]
      refine acquires_mapShard_of_same ?_ y s.id
      exact fun _ => rfl
    · rw [h]
      exact .refl y
  rcases place_cases x with h | h | ⟨fault, h⟩
  · rw [h]
    exact hassign x
  · -- a shard that was added has nothing to do, whether it is stopped or not
    have hgrow : Acquires T P x x.grow := by
      refine acquires_of_shards (fun s hs => ?_) rfl
      rcases List.mem_append.1 hs with hold | hnew
      · exact Or.inl hold
      · obtain rfl := List.mem_singleton.1 hnew
        right
        split
        · rfl
        · exact traffic_new _ _ _
    rw [h]
    exact hgrow.trans (hassign x.grow)
  · rw [h]
    exact .refl x

/-! ## Clients that come and go -/

/-- What was published is known to the services. -/
theorem published_of_services (h : y.services = x.services) : y.published = x.published := by
  rw [published, published, sent, sent, broker?, broker?, h]

/-- A presence service that breaks off publishes nothing either. -/
theorem published_changePresence (x : Exchange) (call : ServiceCall) (f : Presence → Presence) :
    (x.changePresence call f).2.published = x.published := by
  obtain ⟨n, hn⟩ := x.attempt_snd call
  rw [changePresence]
  cases hcall : x.attempt call with
  | mk result y =>
      rw [hcall] at hn
      obtain rfl := hn
      cases result with
      | ok u => rfl
      | error stop =>
          cases stop with
          | fault fault => rfl
          | crash => rfl

/-- Nobody's coming or going is a frame. -/
theorem published_announce (x : Exchange) (event : PresenceEvent) :
    (x.announce event).published = x.published := by
  rw [announce]
  split
  · next broker hpublishing =>
      split
      · next broker' htaken =>
          rw [Broker.publish] at htaken
          split at htaken
          · cases htaken
          · obtain rfl := Option.some.inj htaken
            have hbefore : x.sent = broker.sent := by
              rw [sent, broker?, hpublishing]
              rfl
            rw [published, published, hbefore]
            exact (List.filterMap_append ..).trans (List.append_nil _)
      · rfl
  · rfl

theorem published_depart (x : Exchange) (shard : Nat) (identity : String) :
    (x.depart shard identity).2.published = x.published := by
  rw [depart]
  split
  · rw [untrack]
    split
    · exact published_changePresence _ _ _
    · rfl
  · exact published_changePresence _ _ _

theorem published_unregister (x : Exchange) (shard : Nat) (session : Session) :
    (x.unregister shard session).2.published = x.published := by
  rw [unregister]
  cases x.connection? session with
  | none => rfl
  | some c =>
      have hgone := published_of_services (services_letGo x shard c)
      dsimp only
      cases hletGo : x.letGo shard c with
      | mk held y =>
          rw [hletGo] at hgone
          cases held with
          | false => exact hgone
          | true =>
              have hretired := published_of_services (services_retire y shard session)
              have hdeparted := published_depart (y.retire shard session) shard c.identity
              have hall := hdeparted.trans (hretired.trans hgone)
              dsimp only
              split
              · exact (published_announce ..).trans hall
              · exact hall

theorem published_register (x : Exchange) (shard : Nat) (session : Session) :
    (x.register shard session).2.published = x.published := by
  rw [register]
  cases x.connection? session with
  | none => rfl
  | some c =>
      have htaken : (x.takeOver shard session).services = x.services := services_takeOver ..
      rw [takeOver] at htaken
      dsimp only
      -- an exchange whose pool is out of reach moves nobody, and tells no service of it
      have hmoved : ∀ y : Exchange, (if y.pool.isReachable then y.moveTo shard c.identity session
          else y).services = y.services := by
        intro y
        split
        · exact services_moveTo ..
        · rfl
      have hset := (published_changePresence _ .setOnline (·.setOnline c.identity)).trans
        (published_of_services ((hmoved _).trans htaken))
      split
      · next heq =>
          rw [setOnline] at heq
          rw [heq] at hset
          exact (published_announce ..).trans hset
      · next heq =>
          rw [setOnline] at heq
          rw [heq] at hset
          exact hset

/-- **Nothing comes in with a client that comes.** -/
theorem acquires_register (hkeyed : x.ground.Keyed) (shard : Nat) (session : Session) :
    Acquires T P x (x.register shard session).2 :=
  acquires_of_outline (same_register x shard session hkeyed).2 (published_register ..)

/-- Nor with one that goes. -/
theorem acquires_unregister (hkeyed : x.ground.Keyed) (shard : Nat) (session : Session) :
    Acquires T P x (x.unregister shard session).2 :=
  acquires_of_outline (same_unregister x shard session hkeyed).2 (published_unregister ..)

theorem acquires_enter (hkeyed : x.ground.Keyed) (shard : Nat) (identity : String)
    (remoteAddress : Option SocketAddress) (capacity : Nat) :
    Acquires T P x (x.enter shard identity remoteAddress capacity).2 := by
  have hopened : Acquires T P x (x.openConnection identity remoteAddress capacity).2 :=
    acquires_of_same rfl rfl
  -- the new connection is kept under its session
  have hkeyed' : (x.openConnection identity remoteAddress capacity).2.ground.Keyed :=
    keyed_putConnection hkeyed _
  exact hopened.trans (acquires_register hkeyed' shard x.nextSession)

theorem acquires_conclude (hkeyed : x.ground.Keyed) (session : Session) :
    Acquires T P x (x.conclude session) := by
  rw [conclude]
  split
  · split
    · have hended := (same_mapSocket x session
        fun s => { s with isRegistered := false }) hkeyed
      exact (acquires_mapSocket x session _).trans (acquires_unregister hended.1 ..)
    · exact .refl x
  · exact .refl x

/-! ## Writers -/

theorem acquires_dropWriter (x : Exchange) (session : Session) :
    Acquires T P x (x.dropWriter session) :=
  (acquires_mapSocket x session _).trans (acquires_mapConnection _ session _)

theorem acquires_stopWriter (x : Exchange) (session : Session) :
    Acquires T P x (x.stopWriter session) :=
  (acquires_mapSocket x session _).trans (acquires_dropWriter _ session)

/-- A writer sends what waited at its connection. -/
theorem acquires_write (x : Exchange) (session : Session) : Acquires T P x (x.write session) := by
  rw [write]
  split
  · split
    · exact .refl x
    · split
      · exact acquires_stopWriter x session
      · split
        · exact .refl x
        · next frame outbound _ =>
            dsimp only
            split
            · exact (acquires_putConnection x _).trans (acquires_stopWriter _ session)
            · exact (acquires_putConnection x _).trans (acquires_mapSocket _ session _)
  · exact .refl x

theorem acquires_ping (x : Exchange) (session : Session) : Acquires T P x (x.ping session) := by
  rw [ping]
  split
  · split
    · exact .refl x
    · dsimp only
      split
      · exact (acquires_mapSocket x session _).trans (acquires_stopWriter _ session)
      · exact (acquires_mapSocket x session _).trans (acquires_mapSocket _ session _)
  · exact .refl x

/-! ## Sockets -/

theorem acquires_openSocket (x : Exchange) (session : Session) (wire : Wire)
    (keepalive : Keepalive) : Acquires T P x (x.openSocket session wire keepalive) := by
  have hput : Acquires T P x (x.putSocket session (.new wire keepalive x.ticks)) :=
    acquires_of_same rfl rfl
  rw [openSocket]
  split
  · exact hput
  · exact hput.trans (acquires_dropWriter _ session)

/-- What a client sends waits at its socket until it is read. -/
theorem acquires_clientSends (x : Exchange) (session : Session)
    (items : List Switchboard.Incoming) : Acquires T P x (x.clientSends session items).2 := by
  rw [clientSends]
  split
  · exact .refl x
  · dsimp only
    split
    · exact acquires_mapSocket x session _
    · exact .refl x

/-! ## Taking up and putting down -/

theorem services_take (x : Exchange) (shard : Nat) : (x.take shard).services = x.services := by
  rw [take]
  split
  · rfl
  · split
    · split
      · rfl
      · rfl
    · rfl

theorem services_draw (x : Exchange) (shard : Nat) : (x.draw shard).services = x.services := by
  rw [draw]
  split
  · rfl
  · split
    · rfl
    · rfl

/-- A task that is taken was there before. -/
theorem acquires_take (x : Exchange) (shard : Nat) : Acquires T P x (x.take shard) := by
  refine acquires_of_traffic (fun id task h => Or.inl ?_) (fun id handover h => Or.inl ?_)
    (published_of_services (services_take x shard))
  · rw [traffic_take] at h
    split at h
    · next hid =>
        rw [hid.1]
        cases hwork : (x.traffic shard).work with
        | nil =>
            rw [hwork] at h
            simpa [Traffic.tasks, hwork] using h
        | cons first rest =>
            -- the oldest task was taken and is in somebody's hand now
            simp only [Traffic.tasks, hwork, List.tail_cons, List.head?_cons, Option.toList_some,
              List.mem_append, List.mem_cons, List.not_mem_nil, or_false] at h ⊢
            rcases h with hrest | hhand | hfirst
            · exact Or.inl (Or.inr hrest)
            · exact Or.inr hhand
            · exact Or.inl (Or.inl hfirst)
    · exact h
  · rw [traffic_take] at h
    split at h
    · next hid =>
        rw [hid.1]
        exact h
    · exact h

/-- A task that is put down is gone, and no other one comes. -/
theorem acquires_putDown (x : Exchange) (shard slot : Nat) :
    Acquires T P x (x.putDown shard slot) := by
  refine acquires_of_traffic (fun id task h => Or.inl ?_) (fun id handover h => Or.inl ?_) rfl
  · rw [traffic_putDown] at h
    split at h
    · next hid =>
        rw [hid]
        refine (List.mem_append.1 h).elim (List.mem_append_left _) fun hleft => ?_
        exact List.mem_append_right _ (List.mem_of_mem_eraseIdx hleft)
    · exact h
  · rw [traffic_putDown] at h
    split at h
    · next hid =>
        rw [hid]
        exact h
    · exact h

theorem acquires_draw (x : Exchange) (shard : Nat) : Acquires T P x (x.draw shard) := by
  refine acquires_of_traffic (fun id task h => Or.inl ?_) (fun id handover h => Or.inl ?_)
    (published_of_services (services_draw x shard))
  · rw [traffic_draw] at h
    split at h
    · next hid =>
        rw [hid]
        exact h
    · exact h
  · rw [traffic_draw] at h
    split at h
    · next hid =>
        rw [hid]
        exact List.mem_of_mem_tail h
    · exact h

/-! ## Where tasks are made -/

/-- A task comes in, or is counted as dropped. -/
theorem acquires_submit (x : Exchange) (shard : Nat) {task : Task} (htask : T task) :
    Acquires T P x (x.submit shard task).2 := by
  rw [submit]
  cases hs : x.shard? shard with
  | none => exact .refl x
  | some s =>
      dsimp only
      cases hoffer : s.work.offer task with
      | error refusal =>
          cases refusal with
          | full =>
              show Acquires T P x (x.countDropped shard)
              exact (bears_acquires T P).count _ _ _
          | closed => exact .refl x
      | ok work =>
          refine acquires_mapShard hs (fun task' h => ?_) fun handover h => Or.inl h
          change task' ∈ work.items ++ s.inHand at h
          rw [items_of_offer hoffer, List.append_assoc] at h
          show task' ∈ s.work.items ++ s.inHand ∨ T task'
          -- the new task stands between those that wait and those in hand
          rcases List.mem_append.1 h with hold | hnew
          · exact Or.inl (List.mem_append_left _ hold)
          · rcases List.mem_append.1 hnew with hthis | hhand
            · obtain rfl := List.mem_singleton.1 hthis
              exact Or.inr htask
            · exact Or.inl (List.mem_append_right _ hhand)

/-- A message that was read comes in as one task, and a heartbeat as none. -/
theorem acquires_takeIn (x : Exchange) (session : Session) {e : Envelope} {raw : Bytes}
    (hmade : Task.IsMade (inbound e raw)) : Acquires Task.IsMade P x (x.takeIn session e raw) := by
  rw [takeIn]
  split
  · exact (acquires_mapConnection x session _).trans (acquires_sendTo _ session _)
  · split
    · exact acquires_submit x _ hmade
    · exact .refl x

theorem acquires_stopReader (x : Exchange) (session : Session) :
    Acquires T P x (x.stopReader session) :=
  (acquires_mapSocket x session _).trans (acquires_mapConnection _ session _)

/-- A reader makes tasks of binary messages as they are, and writes those anew that came as text. -/
theorem acquires_readItem (x : Exchange) (session : Session) (item : Switchboard.Incoming) :
    Acquires Task.IsMade P x (x.readItem session item) := by
  cases item with
  | binary frame =>
      rw [readItem]
      split
      · next e hdecode => exact acquires_takeIn x session (Or.inl hdecode)
      · exact .refl x
  | text frame =>
      rw [readItem]
      split
      · next e _ => exact acquires_takeIn x session (Or.inr rfl)
      · exact .refl x
  | ping length => exact acquires_mapConnection x session _
  | pong => exact acquires_mapConnection x session _
  | close => exact acquires_stopReader x session
  | failure => exact acquires_stopReader x session
  | ended => exact acquires_stopReader x session

theorem acquires_read (x : Exchange) (session : Session) :
    Acquires Task.IsMade P x (x.read session) := by
  rw [read]
  split
  · split
    · exact .refl x
    · split
      · exact acquires_stopReader x session
      · split
        · exact .refl x
        · exact (acquires_mapSocket x session _).trans (acquires_readItem _ session _)
  · exact .refl x

/-- **What the assistant says is a task** in the octets that its envelope is written in. -/
theorem acquires_answer (x : Exchange) : Acquires Task.IsMade P x x.answer := by
  cases hprompts : x.pool.prompts with
  | nil =>
      rw [answer, hprompts]
      exact .refl x
  | cons prompt prompts =>
      have hbears := bears_acquires Task.IsMade P
      have hgone : Acquires Task.IsMade P x (x.mapPool fun p => { p with prompts }) :=
        acquires_of_same rfl rfl
      have hasked := hgone.trans (hbears.attempt _ .complete)
      rw [answer, hprompts]
      dsimp only
      cases hcall : (x.mapPool fun p => { p with prompts }).attempt .complete with
      | mk result y =>
          rw [hcall] at hasked
          cases (x.mapPool fun p => { p with prompts }).services.assistant with
          | none => exact hasked
          | some assistant =>
              cases result with
              | error stop => exact hasked
              | ok u =>
                  dsimp only
                  split
                  · exact hasked.trans ((hbears.fresh y).trans (acquires_submit _ _ (Or.inr rfl)))
                  · exact hasked

/-- Another shard makes a task of a frame that it can read. -/
theorem acquires_relay (hreadable : ∀ frame, x.HasFrame frame → Readable frame) (shard : Nat) :
    Acquires Task.IsMade P x (x.relay shard) := by
  cases hforward : (x.traffic shard).forward with
  | nil =>
      rw [relay_of_nil hforward]
      exact .refl x
  | cons handover rest =>
      -- what was handed over can be read, so it comes in as what it reads as
      obtain ⟨e, hdecode⟩ := hreadable handover.frame
        (Or.inl ⟨shard, handover, by rw [hforward]; exact List.mem_cons_self, rfl⟩)
      rw [relay_of_forward hforward, enqueue, hdecode]
      exact (acquires_draw x shard).trans (acquires_submit _ _ (Or.inl hdecode))

/-! ## The consumer -/

theorem published_stopConsumer (x : Exchange) : x.stopConsumer.published = x.published := by
  rw [stopConsumer]
  split
  · next subscriber broker _ hpublishing =>
      rw [published, published, sent, sent, broker?, broker?, hpublishing]
      rfl
  · rfl

theorem traffic_stopConsumer (x : Exchange) : x.stopConsumer.traffic = x.traffic := by
  rw [stopConsumer]
  split
  · rfl
  · rfl

/-- Without the consumer nothing is read, and nothing else changes. -/
theorem acquires_stopConsumer (x : Exchange) : Acquires T P x x.stopConsumer :=
  acquires_of_same (traffic_stopConsumer x) (published_stopConsumer x)

/-- With the shards, what waited at them is gone. -/
theorem acquires_shutDown (x : Exchange) : Acquires T P x x.shutDown := by
  have hstopped : Acquires T P x
      (x.mapPool fun p => { p with shards := p.shards.map Shard.stop, isShutDown := true }) := by
    refine acquires_of_shards (fun s hs => Or.inr ?_) rfl
    obtain ⟨t, -, rfl⟩ := List.mem_map.1 hs
    rfl
  exact hstopped.trans (acquires_stopConsumer _)

/-- The consumer writes what was published. -/
theorem acquires_consume (hframes : ∀ frame, x.HasFrame frame → P frame) :
    Acquires T P x x.consume := by
  rw [consume]
  split
  · next subscriber broker _ hpublishing =>
      have hbefore : x.sent = broker.sent := by
        rw [sent, broker?, hpublishing]
        rfl
      have hread : Acquires T P x
          { x with services.publishing := .broker (broker.read subscriber).2 } := by
        refine acquires_of_same rfl ?_
        rw [published, published, hbefore, ← broker.sent_read subscriber]
        rfl
      dsimp only
      split
      · next event hevent =>
          -- what is read now was published once, so it is of the kind
          have hpublished : ∀ frame, event.frame? = some frame → P frame := by
            intro frame hframe
            have hsent := Broker.mem_sent_of_read hevent
            rw [← hbefore] at hsent
            exact hframes frame (Or.inr (List.mem_filterMap.2 ⟨event, hsent, hframe⟩))
          exact hread.trans (Routing.keeps_handlePublished (bears_acquires T P)
            acquires_stopConsumer hpublished _)
      · exact hread
  · exact .refl x

end Exchange

end Switchboard
