import Mathlib.Algebra.Order.BigOperators.Group.Finset
import Switchboard.Exchange.Schedule
import Switchboard.Proofs.Routing.Direct
import Switchboard.Proofs.Routing.Outbound

/-!
# Frames on their way to many

The frames of one message may be on their way to many at once. At every shard they wait, are queued,
are taken by processors, and are written to the connections they are for: a `Lane` is how far those
at one shard have come. `Underway` says that an exchange differs from the one that the message came
to in the frames on their way, in what the connections have taken of those that arrived, and in what
was kept. Processors and coordinators leave it so, each shard at its own pace (`advanced_take`,
`advanced_relay`, `advanced_finish`), and can bring every frame to its end (`consigned_settles`).
Each of these steps is about one shard, so it can be taken whatever else waits at the others.
-/

namespace Switchboard

/-- What is done as soon as it can be, without a timer. -/
def Action.serves : Action → Bool
  | .take _ | .finish .. | .relay _ | .answer | .consume => true
  | .sweep _ | .read _ | .write _ | .ping _ | .conclude _ => false

theorem Action.handles_of_serves {action : Action} (h : action.serves = true) :
    action.handles = true := by
  cases action with
  | sweep id => rfl
  | read session => cases h
  | write session => cases h
  | ping session => cases h
  | conclude session => cases h
  | _ => rfl

/-- What is done without a timer is what is handled, but for the looks for forgotten fragments. -/
@[elab_as_elim]
theorem Action.serves_cases {motive : (action : Action) → action.serves = true → Prop}
    (take : ∀ id, motive (.take id) rfl) (finish : ∀ id slot, motive (.finish id slot) rfl)
    (relay : ∀ id, motive (.relay id) rfl) (answer : motive .answer rfl)
    (consume : motive .consume rfl) (action : Action) (h : action.serves = true) :
    motive action h := by
  have hhandles := handles_of_serves h
  cases action, hhandles using handles_cases with
  | take id => exact take id
  | finish id slot => exact finish id slot
  | relay id => exact relay id
  | sweep id => cases h
  | answer => exact answer
  | consume => exact consume

/-- The shard whose processors or coordinator bring a task or a frame on. -/
def Action.place? : Action → Option Nat
  | .take id | .finish id _ | .relay id => some id
  | .sweep _ | .answer | .consume | .read _ | .write _ | .ping _ | .conclude _ => none

@[elab_as_elim]
theorem Action.place_cases {shard : Nat}
    {motive : (action : Action) → action.place? = some shard → Prop}
    (take : motive (.take shard) rfl) (finish : ∀ slot, motive (.finish shard slot) rfl)
    (relay : motive (.relay shard) rfl) :
    ∀ (action : Action) (h : action.place? = some shard), motive action h
  | .take _, rfl => take
  | .finish _ slot, rfl => finish slot
  | .relay _, rfl => relay

/-- The task that comes of a frame that was handed over. -/
def Handover.task (h : Handover) : Task := Passage.task h.target h.frame

/-- The frames for whoever is at a shard, by how far they have come. -/
structure Lane where
  /-- Written to the connections they are for, the first one first. -/
  arrived : List Handover := []
  /-- Taken by processors. -/
  inHand : List Handover := []
  queued : List Handover := []
  handed : List Handover := []

namespace Lane

def all (l : Lane) : List Handover := l.arrived ++ l.inHand ++ l.queued ++ l.handed

def traffic (l : Lane) : Traffic :=
  { work := l.queued.map Handover.task, forward := l.handed
    inHand := l.inHand.map Handover.task }

/-- The frames that were written for an identity. -/
def received (l : Lane) (identity : String) : List Bytes :=
  (l.arrived.filter (·.target = identity)).map Handover.frame

/-- A processor has taken a frame. -/
def take (l : Lane) (h : Handover) (rest : List Handover) : Lane :=
  { l with queued := rest, inHand := l.inHand ++ [h] }

/-- A frame that was handed over is queued. -/
def relay (l : Lane) (h : Handover) (rest : List Handover) : Lane :=
  { l with handed := rest, queued := l.queued ++ [h] }

/-- A processor has written the frame in some slot. -/
def finish (l : Lane) (slot : Nat) (h : Handover) : Lane :=
  { l with inHand := l.inHand.eraseIdx slot, arrived := l.arrived ++ [h] }

/-- The number of steps that the frames still have to take. -/
def todo (l : Lane) : Nat := 3 * l.handed.length + 2 * l.queued.length + l.inHand.length

variable {l : Lane} {h : Handover} {rest : List Handover}

/-- With no step left to take nothing is on its way. -/
theorem idle_of_todo (htodo : l.todo = 0) : l.inHand = [] ∧ l.queued = [] ∧ l.handed = [] := by
  rw [todo] at htodo
  exact ⟨List.eq_nil_of_length_eq_zero (by omega), List.eq_nil_of_length_eq_zero (by omega),
    List.eq_nil_of_length_eq_zero (by omega)⟩

theorem traffic_of_todo (htodo : l.todo = 0) : l.traffic = {} := by
  obtain ⟨hinHand, hqueued, hhanded⟩ := idle_of_todo htodo
  rw [traffic, hinHand, hqueued, hhanded]
  rfl

/-- Where nothing waits there is nothing to do. -/
theorem todo_of_traffic (htraffic : l.traffic = {}) : l.todo = 0 := by
  have hqueued : l.queued = [] := List.map_eq_nil_iff.1 (congrArg Traffic.work htraffic)
  have hhanded : l.handed = [] := congrArg Traffic.forward htraffic
  have hinHand : l.inHand = [] := List.map_eq_nil_iff.1 (congrArg Traffic.inHand htraffic)
  rw [todo, hqueued, hhanded, hinHand]
  rfl

/-- With no step left to take every frame has arrived. -/
theorem all_of_todo (htodo : l.todo = 0) : l.all = l.arrived := by
  obtain ⟨hinHand, hqueued, hhanded⟩ := idle_of_todo htodo
  rw [all, hinHand, hqueued, hhanded, List.append_nil, List.append_nil, List.append_nil]

/-- A shard that nothing comes to has nothing to do. -/
theorem todo_of_all (hall : l.all = []) : l.todo = 0 := by
  have hlength := congrArg List.length hall
  simp only [all, List.length_append, List.length_nil] at hlength
  rw [todo]
  omega

theorem todo_take (hqueued : l.queued = h :: rest) : (l.take h rest).todo < l.todo := by
  simp only [todo, take, hqueued, List.length_append, List.length_cons, List.length_nil]
  omega

theorem todo_relay (hhanded : l.handed = h :: rest) : (l.relay h rest).todo < l.todo := by
  simp only [todo, relay, hhanded, List.length_append, List.length_cons, List.length_nil]
  omega

theorem todo_finish {slot : Nat} (hslot : l.inHand[slot]? = some h) :
    (l.finish slot h).todo < l.todo := by
  obtain ⟨hlt, -⟩ := List.getElem?_eq_some_iff.1 hslot
  simp only [todo, finish, List.length_eraseIdx_of_lt hlt]
  omega

theorem all_take (hqueued : l.queued = h :: rest) : (l.take h rest).all = l.all := by
  simp only [all, take, hqueued, List.append_assoc, List.cons_append, List.nil_append]

theorem all_relay (hhanded : l.handed = h :: rest) : (l.relay h rest).all = l.all := by
  simp only [all, relay, hhanded, List.append_assoc, List.cons_append, List.nil_append]

/-- Several processors write the frames in any order, but write them all. -/
theorem all_finish_perm {slot : Nat} (hslot : l.inHand[slot]? = some h) :
    (l.finish slot h).all.Perm l.all := by
  have hinHand := cons_eraseIdx_perm hslot
  rw [all, all, finish, List.append_assoc l.arrived]
  exact ((hinHand.append_left l.arrived).append_right l.queued).append_right l.handed

/-- One processor writes the frames in order. -/
theorem all_finish_of_single {slot : Nat} (hslot : l.inHand[slot]? = some h)
    (hsingle : l.inHand.length ≤ 1) : (l.finish slot h).all = l.all := by
  have hinHand := cons_eraseIdx_of_single hslot hsingle
  rw [all, all, finish, List.append_assoc l.arrived]
  exact congrArg (l.arrived ++ · ++ l.queued ++ l.handed) hinHand

/-- A frame that is written comes after those that were written before. -/
theorem received_finish (l : Lane) (slot : Nat) (h : Handover) :
    (l.finish slot h).received h.target = l.received h.target ++ [h.frame] := by
  rw [received, finish, received, List.filter_append, List.map_append]
  simp

theorem received_finish_of_ne (l : Lane) (slot : Nat) {identity : String}
    (hne : h.target ≠ identity) : (l.finish slot h).received identity = l.received identity := by
  rw [received, finish, received, List.filter_append]
  simp [hne]

end Lane

namespace Exchange

/-- Whoever holds an identity was sent frames by its shard and has taken those it had room for, and
nobody else was sent anything. -/
structure Mailed (x : Exchange) (mail : Session → Option Mailbox)
    (sent : Nat → String → List Bytes) : Prop where
  held : ∀ {shard identity session}, x.holder? shard identity = some session →
    mail session = (x.mail session).map (·.accept (sent shard identity))
  others : ∀ {session}, (∀ shard identity, x.holder? shard identity ≠ some session) →
    mail session = x.mail session

/-- Whoever holds an identity is the one connection of that identity. -/
def Owned (x : Exchange) : Prop :=
  ∀ shard identity session, x.holder? shard identity = some session →
    x.ground.owner session = some (identity, session)

/-- The consumer, if there is one that listens, has read everything that was published. -/
def CaughtUp (x : Exchange) : Prop :=
  ∀ subscriber broker next, x.pool.consumer = some subscriber →
    x.services.publishing = .broker broker → broker.subscribers.get? subscriber = some next →
    next = broker.sent.length

/-- A pool at rest in which registries, index and presence service agree, and in which every service
does what it is asked. -/
structure Orderly (x : Exchange) : Prop where
  well : x.services.outages = []
  reachable : x.pool.isReachable = true
  limits : ∀ shard s, x.shard? shard = some s → s.assembler.limits = x.config.fragment.limits
  rest : x.AtRest
  noPrompt : x.pool.prompts = []
  agrees : ∀ identity, x.roster.Agrees identity
  owned : x.Owned
  /-- Nobody is a member of a group twice. -/
  members : ∀ group, (x.services.groups.membersOf group).Nodup

section Mailed

variable {x : Exchange} {mail : Session → Option Mailbox} {sent sent' : Nat → String → List Bytes}
  {shard : Nat} {identity : String} {session : Session}

/-- Before anything is sent everybody has what they had. -/
theorem mailed_nothing (x : Exchange) : x.Mailed x.mail fun _ _ => [] where
  held _ := by
    simp only [Mailbox.accept_nil, Option.map_id']
  others _ := rfl

/-- What would be sent to nobody does not matter. -/
theorem Mailed.congr (h : x.Mailed mail sent) (hsent : ∀ shard identity,
    (x.holder? shard identity).isSome → sent' shard identity = sent shard identity) :
    x.Mailed mail sent' where
  held hheld := by
    rw [hsent _ _ (by rw [hheld]; rfl)]
    exact h.held hheld
  others := h.others

/-- Whoever is held is kept under the session that holds them. -/
theorem Owned.keepsAt (hx : x.Owned) (hheld : x.holder? shard identity = some session) :
    x.view.KeepsAt session := by
  intro b hb
  obtain ⟨c, hc, rfl⟩ := Option.map_eq_some_iff.1 hb
  obtain ⟨c', hc', heq⟩ := Option.map_eq_some_iff.1 (hx _ _ _ hheld)
  obtain rfl := Option.some.inj (hc.symm.trans hc')
  exact congrArg Prod.snd heq

/-- A connection does not speak for two identities. -/
theorem Owned.identity_unique (hx : x.Owned) {shard' : Nat} {identity' : String}
    (hheld : x.holder? shard identity = some session)
    (hheld' : x.holder? shard' identity' = some session) : identity = identity' :=
  congrArg Prod.fst (Option.some.inj ((hx _ _ _ hheld).symm.trans (hx _ _ _ hheld')))

/-- The same after frames were sent. -/
theorem Mailed.keepsAt (hx : x.Owned) {v : View} (h : x.Mailed v.mail sent)
    (hheld : x.holder? shard identity = some session) : v.KeepsAt session := by
  intro b hb
  rw [h.held hheld] at hb
  obtain ⟨b', hb', rfl⟩ := Option.map_eq_some_iff.1 hb
  exact hx.keepsAt hheld b' hb'

/-- More frames for one identity. -/
theorem Mailed.give (hx : x.Owned) (hagrees : ∀ identity, x.roster.Agrees identity) {v : View}
    (h : x.Mailed v.mail sent) (hheld : x.holder? shard identity = some session)
    {frames : List Bytes} (hsame : sent' shard identity = sent shard identity ++ frames)
    (hother : ∀ shard' identity', (x.holder? shard' identity').isSome → identity' ≠ identity →
      sent' shard' identity' = sent shard' identity') :
    x.Mailed (v.give session frames).mail sent' where
  held := by
    intro shard' identity' session' hheld'
    show (if session' = session then (v.mail session').map (·.accept frames)
      else v.mail session') = _
    by_cases hsession : session' = session
    · subst hsession
      -- the session speaks for one identity, and this is held at one shard
      obtain rfl := hx.identity_unique hheld' hheld
      obtain rfl := (hagrees identity').unique _ _ _ _ hheld' hheld
      rw [if_pos rfl, h.held hheld, Option.map_map, hsame]
      exact congrArg (fun f => (x.mail session').map f)
        (funext fun b => b.accept_accept (sent shard' identity') frames)
    · rw [if_neg hsession, h.held hheld']
      by_cases hidentity : identity' = identity
      · -- an identity is held once only, so it would be the same session
        subst hidentity
        obtain rfl := (hagrees identity').unique _ _ _ _ hheld' hheld
        exact absurd (Option.some.inj (hheld'.symm.trans hheld)) hsession
      · rw [hother _ _ (by rw [hheld']; rfl) hidentity]
  others := by
    intro session' hnobody
    show (if session' = session then (v.mail session').map (·.accept frames)
      else v.mail session') = _
    have hne : session' ≠ session := by
      rintro rfl
      exact hnobody shard identity hheld
    rw [if_neg hne]
    exact h.others hnobody

end Mailed

/-! ## What the steps leave alone -/

section Steps

variable {x : Exchange} {shard : Nat}

@[simp] theorem assembler?_take (x : Exchange) (shard : Nat) :
    (x.take shard).assembler? = x.assembler? := by
  rw [take]
  cases x.shard? shard with
  | none => rfl
  | some s =>
      dsimp only
      split
      · cases s.work.take? with
        | none => rfl
        | some taken =>
            refine assembler?_mapShard_of_same ?_ ..
            exact fun _ => rfl
      · rfl

/-- Queueing a task joins no fragment. -/
theorem assembler?_submit (x : Exchange) (shard : Nat) (task : Task) :
    (x.submit shard task).2.assembler? = x.assembler? := by
  rw [submit]
  cases x.shard? shard with
  | none => rfl
  | some s =>
      dsimp only
      cases s.work.offer task with
      | ok work =>
          refine assembler?_mapShard_of_same ?_ ..
          exact fun _ => rfl
      | error refusal =>
          cases refusal with
          | full => exact assembler?_mapCounters ..
          | closed => rfl

@[simp] theorem assembler?_relay (x : Exchange) (shard : Nat) :
    (x.relay shard).assembler? = x.assembler? := by
  rw [relay]
  cases x.shard? shard with
  | none => rfl
  | some s =>
      dsimp only
      cases s.forward.take? with
      | none => rfl
      | some taken =>
          dsimp only
          have hforward : (x.mapShard shard fun s => { s with forward := taken.2 }).assembler?
              = x.assembler? := by
            refine assembler?_mapShard_of_same ?_ ..
            exact fun _ => rfl
          rw [enqueue]
          cases Envelope.decode taken.1.frame with
          | error fault =>
              exact (assembler?_mapCounters ..).trans ((assembler?_mapCounters ..).trans hforward)
          | ok e => exact (assembler?_submit ..).trans ((assembler?_mapCounters ..).trans hforward)

/-- A frame that was handed over is sent to the connection it is for. -/
theorem routeTask_of_forwarded {target : String} {session : Session}
    (hheld : x.holder? shard target = some session) (hkey : x.view.KeepsAt session) (e : Envelope)
    (raw : Bytes) :
    (x.routeTask shard { envelope := e, raw, origin := .forwarded target }).view
        = x.view.give session [raw] ∧
      (x.routeTask shard { envelope := e, raw, origin := .forwarded target }).assembler?
        = x.assembler? := by
  have hends : Routing.Ends
      (Routing.route shard { envelope := e, raw, origin := .forwarded target })
      { exchange := x, copy := .unresolved }
      (Routing.Gave { exchange := x, copy := .unresolved } session [raw]) := by
    refine Routing.Ends.exchange_bind ?_
    rw [hheld]
    exact Routing.ends_write shard hkey [raw]
  obtain ⟨s, hs, hroute⟩ := routeTask_of_ends hends
  rw [hroute]
  exact ⟨hs.view, hs.assembler?⟩

@[simp] theorem assembler?_putDown (x : Exchange) (shard slot : Nat) :
    (x.putDown shard slot).assembler? = x.assembler? := by
  refine assembler?_mapShard_of_same ?_ ..
  exact fun _ => rfl

end Steps

/-! ## A consumer without anything to read -/

section CaughtUp

variable {x y : Exchange}

/-- Whether the consumer is caught up does not depend on what is on its way. -/
theorem caughtUp_of_bare (h : y.bare = x.bare) (hx : x.CaughtUp) : y.CaughtUp := by
  have hconsumer : y.bare.pool.consumer = x.bare.pool.consumer := by rw [h]
  have hpublishing : y.bare.services.publishing = x.bare.services.publishing := by rw [h]
  intro subscriber broker next hsubscriber hbroker
  exact hx subscriber broker next (hconsumer ▸ hsubscriber) (hpublishing ▸ hbroker)

theorem caughtUp_of_off (h : x.services.publishing = .off) : x.CaughtUp := by
  intro subscriber broker next _ hbroker
  exact Publishing.noConfusion (h.symm.trans hbroker)

/-- A consumer that has read everything does nothing. -/
theorem consume_of_caughtUp (hx : x.CaughtUp) : x.consume = x := by
  rw [consume]
  cases hconsumer : x.pool.consumer with
  | none => rfl
  | some subscriber =>
      cases hpublishing : x.services.publishing with
      | off => rfl
      | refusing => rfl
      | broker broker =>
          have hsame : ({ x with services.publishing := .broker broker } : Exchange) = x := by
            rw [← hpublishing]
          dsimp only
          rw [Broker.read]
          cases hnext : broker.subscribers.get? subscriber with
          | none => exact hsame
          | some next =>
              obtain rfl := hx subscriber broker next hconsumer hpublishing hnext
              -- the consumer is at the end of what was sent, so it has not fallen behind
              have hlt : ¬ broker.sent.length < broker.sent.length - broker.capacity := by omega
              dsimp only
              rw [if_neg hlt, List.getElem?_eq_none_iff.2 (Nat.le_refl _)]
              exact hsame

theorem consuming_of_caughtUp (hx : x.CaughtUp) : x.consuming = [] := by
  rw [consuming]
  cases hconsumer : x.pool.consumer with
  | none => rfl
  | some subscriber =>
      cases hpublishing : x.services.publishing with
      | off => rfl
      | refusing => rfl
      | broker broker =>
          dsimp only
          rw [Broker.backlog]
          cases hnext : broker.subscribers.get? subscriber with
          | none => rfl
          | some next =>
              obtain rfl := hx subscriber broker next hconsumer hpublishing hnext
              have hlt : ¬ broker.sent.length < broker.sent.length - broker.capacity := by omega
              dsimp only
              rw [if_neg hlt, Nat.sub_self]
              rfl

end CaughtUp

/-! ## Underway -/

/-- Frames that shards can take: each of them is for somebody there, and reads as an envelope. -/
def Takes (x : Exchange) (due : Nat → List Handover) : Prop :=
  ∀ shard, ∀ h ∈ due shard, (∃ session, x.holder? shard h.target = some session) ∧
    ∃ e, Envelope.decode h.frame = .ok e

/-- What is due at each shard has come as far as the lanes say, something was kept, and nothing else
has changed, whatever waits at the shards. -/
structure Consigned (x : Exchange) (due : Nat → List Handover) (offline : OfflineStore)
    (issued : Nat) (lanes : Nat → Lane) (v : View) : Prop where
  bare : v.bare = x.bare
  offline : v.offline = offline
  issued : v.issued = issued
  mail : x.Mailed v.mail fun shard => (lanes shard).received
  perm : ∀ shard, (lanes shard).all.Perm (due shard)
  order : x.processors = 1 → ∀ shard, (lanes shard).inHand.length ≤ 1 ∧ (lanes shard).all = due shard
  room : ∀ shard, (lanes shard).handed ≠ [] → x.view.CanWork shard (due shard).length

/-- What is due at each shard has come as far as the lanes say, something was kept, and nothing else
has changed. -/
structure Underway (x : Exchange) (due : Nat → List Handover) (offline : OfflineStore)
    (issued : Nat) (lanes : Nat → Lane) (v : View) : Prop
    extends x.Consigned due offline issued lanes v where
  traffic : ∀ shard, v.traffic shard = (lanes shard).traffic

/-- One lane is another one than before, and so is what waits at its shard. -/
structure Advanced (x : Exchange) (due : Nat → List Handover) (offline : OfflineStore)
    (issued : Nat) (lanes : Nat → Lane) (shard : Nat) (l : Lane) (y z : Exchange) : Prop where
  consigned : x.Consigned due offline issued (Function.update lanes shard l) z.view
  traffic : ∀ id, z.view.traffic id = if id = shard then l.traffic else y.view.traffic id
  joined : z.assembler? = y.assembler?

section Consigned

variable {x y z : Exchange} {due : Nat → List Handover} {offline : OfflineStore} {issued : Nat}
  {lanes : Nat → Lane} {v : View} {shard : Nat} {l : Lane} {h : Handover} {rest : List Handover}

/-- Only one lane has changed, and no frame was lost there nor made. -/
theorem Consigned.setLane (hv : x.Consigned due offline issued lanes y.view)
    (hperm : l.all.Perm (lanes shard).all)
    (horder : (lanes shard).inHand.length ≤ 1 → x.processors = 1 →
      l.inHand.length ≤ 1 ∧ l.all = (lanes shard).all)
    (hhanded : l.handed ≠ [] → (lanes shard).handed ≠ []) {mail : Session → Option Mailbox}
    (hmail : x.Mailed mail fun id => (Function.update lanes shard l id).received)
    (hz : z.view = { y.view.setTraffic shard l.traffic with mail })
    (hjoined : z.assembler? = y.assembler?) :
    x.Advanced due offline issued lanes shard l y z where
  joined := hjoined
  traffic id := traffic_of_view hz id
  consigned :=
    { bare := (bare_of_view hz).trans hv.bare
      offline := (offline_of_view hz).trans hv.offline
      issued := (issued_of_view hz).trans hv.issued
      mail := by
        rw [hz]
        exact hmail
      perm := by
        intro id
        by_cases hid : id = shard
        · rw [hid, Function.update_self]
          exact hperm.trans (hv.perm shard)
        · rw [Function.update_of_ne hid]
          exact hv.perm id
      order := by
        intro hone id
        by_cases hid : id = shard
        · obtain ⟨hsingle, hall⟩ := hv.order hone shard
          rw [hid, Function.update_self]
          exact ⟨(horder hsingle hone).1, (horder hsingle hone).2.trans hall⟩
        · rw [Function.update_of_ne hid]
          exact hv.order hone id
      room := by
        intro id
        by_cases hid : id = shard
        · rw [hid, Function.update_self]
          exact fun hne => hv.room shard (hhanded hne)
        · rw [Function.update_of_ne hid]
          exact hv.room id }

/-- Frames that have not arrived yet do not matter for what was sent. -/
theorem Consigned.mail_of_arrived (hv : x.Consigned due offline issued lanes v)
    (harrived : l.arrived = (lanes shard).arrived) :
    x.Mailed v.mail fun id => (Function.update lanes shard l id).received := by
  refine hv.mail.congr fun id identity _ => ?_
  by_cases hid : id = shard
  · rw [hid, Function.update_self, Lane.received, harrived]
    rfl
  · rw [Function.update_of_ne hid]

section Shard

variable (hv : x.Consigned due offline issued lanes y.view)
  (htraffic : y.view.traffic shard = (lanes shard).traffic)

include hv htraffic

/-- Nothing happens at the shard. -/
theorem advanced_refl : x.Advanced due offline issued lanes shard (lanes shard) y y where
  consigned := by
    rw [Function.update_eq_self]
    exact hv
  traffic id := by
    split
    · next hid => rw [hid, htraffic]
    · rfl
  joined := rfl

/-- A processor takes a frame. -/
theorem advanced_take (hqueued : (lanes shard).queued = h :: rest)
    (hfree : (lanes shard).inHand.length < y.processors) :
    x.Advanced due offline issued lanes shard ((lanes shard).take h rest) y (y.take shard) := by
  have hwork : (y.view.traffic shard).work = h.task :: rest.map Handover.task := by
    rw [htraffic, Lane.traffic, hqueued]
    rfl
  have hinHand : (y.view.traffic shard).inHand.length < y.processors := by
    rw [htraffic, Lane.traffic, List.length_map]
    exact hfree
  have hbare : y.bare = x.bare := hv.bare
  have htake : (y.take shard).view = { y.view.setTraffic shard
      ((lanes shard).take h rest).traffic with mail := y.view.mail } := by
    rw [view_take hwork hinHand, htraffic]
    simp only [Lane.traffic, Lane.take, List.map_append, List.map_cons, List.map_nil]
    rfl
  refine hv.setLane (List.Perm.of_eq (Lane.all_take hqueued)) (fun _ hone => ?_) (fun hne => hne)
    (hv.mail_of_arrived rfl) htake (assembler?_take ..)
  refine ⟨?_, Lane.all_take hqueued⟩
  -- the only processor was free
  rw [processors, config_of_bare hbare, ← processors, hone] at hfree
  rw [Lane.take, List.length_append, List.length_singleton]
  omega

/-- The coordinator queues a frame, for which there is room. -/
theorem advanced_relay (hx : x.Orderly) (hdue : x.Takes due)
    (hhanded : (lanes shard).handed = h :: rest) :
    x.Advanced due offline issued lanes shard ((lanes shard).relay h rest) y (y.relay shard) := by
  have hforward : (y.view.traffic shard).forward = h :: rest := by
    rw [htraffic, Lane.traffic, hhanded]
  have hne : (lanes shard).handed ≠ [] := by
    rw [hhanded]
    exact List.cons_ne_nil h rest
  have hmem : h ∈ (lanes shard).all :=
    List.mem_append_right _ (hhanded ▸ List.mem_cons_self)
  obtain ⟨-, e, hdecode⟩ := hdue shard h ((hv.perm shard).subset hmem)
  have hwork : y.view.CanWork shard 1 := by
    obtain ⟨s, hs, hlistening, hfits⟩ := hv.room shard hne
    refine ⟨s, hv.bare ▸ hs, hlistening, ?_⟩
    rw [hx.rest shard] at hfits
    have hfits : 0 + (due shard).length ≤ s.work.capacity := hfits
    have hlength := (hv.perm shard).length_eq
    -- the frame is one of those that are not queued yet
    simp only [Lane.all, hhanded, List.length_append, List.length_cons] at hlength
    rw [htraffic, Lane.traffic, List.length_map]
    omega
  have htask : ({ envelope := e, raw := h.frame, origin := .forwarded h.target } : Task)
      = h.task := by
    rw [Handover.task, Passage.task, hdecode]
    rfl
  have hrelay : (y.relay shard).view = { y.view.setTraffic shard
      ((lanes shard).relay h rest).traffic with mail := y.view.mail } := by
    rw [view_relay hwork hforward hdecode, htask, htraffic]
    simp only [Lane.traffic, Lane.relay, List.map_append, List.map_cons, List.map_nil]
    rfl
  exact hv.setLane (List.Perm.of_eq (Lane.all_relay hhanded))
    (fun hsingle _ => ⟨hsingle, Lane.all_relay hhanded⟩) (fun _ => hne) (hv.mail_of_arrived rfl)
    hrelay (assembler?_relay ..)

/-- A processor writes a frame to the connection it is for. -/
theorem advanced_finish (hx : x.Orderly) (hdue : x.Takes due) {slot : Nat}
    (hslot : (lanes shard).inHand[slot]? = some h) :
    x.Advanced due offline issued lanes shard ((lanes shard).finish slot h) y
      (y.finish shard slot) := by
  have htask : (y.view.traffic shard).inHand[slot]? = some h.task := by
    rw [htraffic, Lane.traffic, List.getElem?_map, hslot]
    rfl
  -- `z` is the exchange once the task is put down, from which it is routed
  obtain ⟨z, hput⟩ : ∃ z, z = y.putDown shard slot := ⟨_, rfl⟩
  have hz := view_putDown htask
  rw [← hput] at hz
  have hassembler : z.assembler? = y.assembler? := hput ▸ assembler?_putDown ..
  have hbare : z.bare = x.bare := (bare_of_view hz).trans hv.bare
  have hmem : h ∈ (lanes shard).all :=
    List.mem_append_left _ (List.mem_append_left _ (List.mem_append_right _
      (List.mem_of_getElem? hslot)))
  obtain ⟨⟨session, hheld⟩, -⟩ := hdue shard h ((hv.perm shard).subset hmem)
  have hmail : z.mail = y.mail := mail_of_view hz
  have hkey : z.view.KeepsAt session := by
    have hkeeps := hv.mail.keepsAt hx.owned hheld
    exact fun b hb => hkeeps b ((congrFun hmail session).symm.trans hb)
  obtain ⟨hview, hassembler'⟩ := routeTask_of_forwarded
    ((holder?_of_bare hbare shard h.target).trans hheld) hkey
    (Passage.task h.target h.frame).envelope h.frame
  have hroute : (z.routeTask shard h.task).view = { y.view.setTraffic shard
      ((lanes shard).finish slot h).traffic with mail := (y.view.give session [h.frame]).mail } := by
    refine hview.trans ?_
    rw [hz, htraffic]
    simp only [Lane.traffic, Lane.finish, List.eraseIdx_map]
    rfl
  rw [finish_eq_routeTask htask, ← hput]
  refine hv.setLane (Lane.all_finish_perm hslot) (fun hsingle _ => ⟨?_, ?_⟩) (fun hne => hne) ?_
    hroute (hassembler'.trans hassembler)
  · exact Nat.le_trans (List.length_eraseIdx_le ..) hsingle
  · exact Lane.all_finish_of_single hslot hsingle
  · refine hv.mail.give hx.owned hx.agrees hheld ?_ fun id identity hid hne => ?_
    · -- this frame is written for its target, and for nobody else
      rw [Function.update_self]
      exact Lane.received_finish ..
    · by_cases hshard : id = shard
      · rw [hshard, Function.update_self]
        exact Lane.received_finish_of_ne _ _ (Ne.symm hne)
      · rw [Function.update_of_ne hshard]

/-- **Whatever is done at a shard, its frames come on in an orderly way.** -/
theorem advanced_act (hx : x.Orderly) (hdue : x.Takes due) {action : Action}
    (haction : action.place? = some shard) :
    ∃ l, x.Advanced due offline issued lanes shard l y (y.act action) := by
  have hsame : y.act action = y → ∃ l, x.Advanced due offline issued lanes shard l y
      (y.act action) := by
    intro hact
    rw [hact]
    exact ⟨_, advanced_refl hv htraffic⟩
  cases action, haction using Action.place_cases with
  | take =>
      cases hqueued : (lanes shard).queued with
      | nil =>
          refine hsame (take_of_nil ?_)
          rw [htraffic, Lane.traffic, hqueued]
          rfl
      | cons h rest =>
          by_cases hfree : (lanes shard).inHand.length < y.processors
          · exact ⟨_, advanced_take hv htraffic hqueued hfree⟩
          · refine hsame (take_of_busy ?_)
            rw [htraffic, Lane.traffic, List.length_map]
            exact hfree
  | relay =>
      cases hhanded : (lanes shard).handed with
      | nil =>
          refine hsame (relay_of_nil ?_)
          rw [htraffic, Lane.traffic, hhanded]
      | cons h rest => exact ⟨_, advanced_relay hv htraffic hx hdue hhanded⟩
  | finish slot =>
      cases hslot : (lanes shard).inHand[slot]? with
      | none =>
          refine hsame (finish_of_none ?_)
          rw [htraffic, Lane.traffic, List.getElem?_map, hslot]
          rfl
      | some h => exact ⟨_, advanced_finish hv htraffic hx hdue hslot⟩

/-- As long as frames are on their way at a shard, one of them can be brought on. -/
theorem advanced_of_todo (hx : x.Orderly) (hdue : x.Takes due) (htodo : (lanes shard).todo ≠ 0) :
    ∃ action l, action.serves = true ∧ action.place? = some shard ∧
      l.todo < (lanes shard).todo ∧
      x.Advanced due offline issued lanes shard l y (y.act action) := by
  -- the frame that has come furthest is the one to bring on
  cases hinHand : (lanes shard).inHand with
  | cons h rest =>
      have hslot : (lanes shard).inHand[0]? = some h := by
        rw [hinHand]
        rfl
      exact ⟨.finish shard 0, _, rfl, rfl, Lane.todo_finish hslot,
        advanced_finish hv htraffic hx hdue hslot⟩
  | nil =>
      cases hqueued : (lanes shard).queued with
      | cons h rest =>
          have hfree : (lanes shard).inHand.length < y.processors := by
            rw [hinHand]
            exact Nat.lt_of_lt_of_le Nat.zero_lt_one (Nat.le_max_left 1 _)
          exact ⟨.take shard, _, rfl, rfl, Lane.todo_take hqueued,
            advanced_take hv htraffic hqueued hfree⟩
      | nil =>
          cases hhanded : (lanes shard).handed with
          | cons h rest =>
              exact ⟨.relay shard, _, rfl, rfl, Lane.todo_relay hhanded,
                advanced_relay hv htraffic hx hdue hhanded⟩
          | nil =>
              refine absurd ?_ htodo
              rw [Lane.todo, hinHand, hqueued, hhanded]
              rfl

end Shard

/-- At a shard that does not exist nothing is on its way. -/
theorem Consigned.todo_of_not_shard (hdue : x.Takes due)
    (hv : x.Consigned due offline issued lanes v) (hshard : x.pool.shards.length ≤ shard) :
    (lanes shard).todo = 0 := by
  refine Lane.todo_of_all (List.perm_nil.1 ?_)
  have hnone : due shard = [] := by
    refine List.eq_nil_iff_forall_not_mem.2 fun h hh => ?_
    obtain ⟨⟨session, hheld⟩, -⟩ := hdue shard h hh
    have hsome := isSome_shard?_of_holder? hheld
    rw [shard?, Pool.shard?, List.getElem?_eq_none_iff.2 hshard] at hsome
    exact Bool.false_ne_true hsome
  exact hnone ▸ hv.perm shard

/-- **All frames on their way can be brought to their end**, by those who have them. Of other shards
nothing has to be known. -/
theorem consigned_settles {P : Nat → Prop} (hx : x.Orderly) (hdue : x.Takes due)
    (hv : x.Consigned due offline issued lanes y.view)
    (htraffic : ∀ id, P id → y.view.traffic id = (lanes id).traffic)
    (hothers : ∀ id, ¬ P id → (lanes id).todo = 0) :
    ∃ more : List Action,
      (∀ action ∈ more, action.serves = true ∧ ∃ id, action.place? = some id ∧ P id) ∧
      (∀ id, P id → (y.run more).view.traffic id = {}) ∧ (y.run more).bare = x.bare := by
  -- on the steps that the frames still have to take, at all shards together
  induction htotal : ∑ id ∈ Finset.range x.pool.shards.length, (lanes id).todo
    using Nat.strong_induction_on generalizing y lanes with
  | _ total ih =>
      by_cases hbusy : ∃ id, (lanes id).todo ≠ 0
      · obtain ⟨id, htodo⟩ := hbusy
        have hid : P id := by
          by_contra hnot
          exact htodo (hothers id hnot)
        obtain ⟨action, l, hserves, hplace, hless, hnext⟩ :=
          advanced_of_todo hv (htraffic id hid) hx hdue htodo
        have hmem : id ∈ Finset.range x.pool.shards.length := by
          refine Finset.mem_range.2 (Nat.lt_of_not_le fun hle => htodo ?_)
          exact hv.todo_of_not_shard hdue hle
        have hsum : ∑ i ∈ Finset.range x.pool.shards.length, (Function.update lanes id l i).todo
            < total := by
          rw [← htotal]
          refine Finset.sum_lt_sum (fun i _ => ?_) ⟨id, hmem, by rwa [Function.update_self]⟩
          by_cases hi : i = id
          · rw [hi, Function.update_self]
            exact Nat.le_of_lt hless
          · rw [Function.update_of_ne hi]
        have htraffic' : ∀ i, P i →
            (y.act action).view.traffic i = (Function.update lanes id l i).traffic := by
          intro i hi
          rw [hnext.traffic]
          by_cases heq : i = id
          · rw [if_pos heq, heq, Function.update_self]
          · rw [if_neg heq, Function.update_of_ne heq]
            exact htraffic i hi
        have hothers' : ∀ i, ¬ P i → (Function.update lanes id l i).todo = 0 := by
          intro i hi
          have hne : i ≠ id := fun heq => hi (heq ▸ hid)
          rw [Function.update_of_ne hne]
          exact hothers i hi
        obtain ⟨more, hmore, hrest⟩ := ih _ hsum hnext.consigned htraffic' hothers' rfl
        refine ⟨action :: more, ?_, hrest⟩
        exact List.forall_mem_cons.2 ⟨⟨hserves, id, hplace, hid⟩, hmore⟩
      · refine ⟨[], fun _ hmem => absurd hmem List.not_mem_nil, fun id hid => ?_, hv.bare⟩
        have hidle : (lanes id).todo = 0 := by
          by_contra hne
          exact hbusy ⟨id, hne⟩
        exact (htraffic id hid).trans (Lane.traffic_of_todo hidle)

end Consigned

section Underway

variable {x y z : Exchange} {due : Nat → List Handover} {offline : OfflineStore} {issued : Nat}
  {lanes : Nat → Lane} {shard : Nat} {l : Lane}

/-- The frames at the other shards are where they were. -/
theorem Underway.advance (hv : x.Underway due offline issued lanes y.view)
    (h : x.Advanced due offline issued lanes shard l y z) :
    x.Underway due offline issued (Function.update lanes shard l) z.view := by
  refine ⟨h.consigned, fun id => ?_⟩
  rw [h.traffic]
  by_cases hid : id = shard
  · rw [if_pos hid, hid, Function.update_self]
  · rw [if_neg hid, Function.update_of_ne hid]
    exact hv.traffic id

/-- **Whatever is done next, the frames come on in an orderly way.** Only the search for forgotten
fragments touches those that are being joined. -/
theorem underway_act (hx : x.Orderly) (hcaught : x.CaughtUp) (hdue : x.Takes due)
    (hv : x.Underway due offline issued lanes y.view) {action : Action}
    (haction : action.handles = true) :
    (∃ lanes', x.Underway due offline issued lanes' (y.act action).view) ∧
      (action.serves = true → (y.act action).assembler? = y.assembler?) := by
  have hbare : y.bare = x.bare := hv.bare
  have hplace : ∀ id, action.place? = some id →
      (∃ lanes', x.Underway due offline issued lanes' (y.act action).view) ∧
        (action.serves = true → (y.act action).assembler? = y.assembler?) := by
    intro id hid
    obtain ⟨l, h⟩ := advanced_act hv.toConsigned (hv.traffic id) hx hdue hid
    exact ⟨⟨_, hv.advance h⟩, fun _ => h.joined⟩
  cases action, haction using Action.handles_cases with
  | take id => exact hplace id rfl
  | relay id => exact hplace id rfl
  | finish id slot => exact hplace id rfl
  | sweep id =>
      rw [act, view_sweep]
      exact ⟨⟨lanes, hv⟩, fun h => absurd h Bool.false_ne_true⟩
  | answer =>
      rw [act, answer_of_nil]
      · exact ⟨⟨lanes, hv⟩, fun _ => rfl⟩
      · rw [prompts_of_bare hbare]
        exact hx.noPrompt
  | consume =>
      rw [act, consume_of_caughtUp (caughtUp_of_bare hbare hcaught)]
      exact ⟨⟨lanes, hv⟩, fun _ => rfl⟩

/-- All frames on their way can be brought to their end. -/
theorem underway_settles (hx : x.Orderly) (hdue : x.Takes due)
    (hv : x.Underway due offline issued lanes y.view) :
    ∃ more : List Action, (∀ action ∈ more, action.serves = true) ∧ (y.run more).AtRest := by
  obtain ⟨more, hmore, hrest, -⟩ := consigned_settles (P := fun _ => True) hx hdue hv.toConsigned
    (fun id _ => hv.traffic id) fun id h => absurd trivial h
  exact ⟨more, fun action h => (hmore action h).1, fun id => hrest id trivial⟩

/-- When nothing is on its way any more, everybody has been sent what was due. -/
theorem Underway.arrived (hv : x.Underway due offline issued lanes y.view) (hrest : y.AtRest)
    (shard : Nat) : (lanes shard).arrived.Perm (due shard) ∧
      (x.processors = 1 → (lanes shard).arrived = due shard) := by
  have htodo := Lane.todo_of_traffic ((hv.traffic shard).symm.trans (hrest shard))
  rw [← Lane.all_of_todo htodo]
  exact ⟨hv.perm shard, fun hone => (hv.order hone shard).2⟩

end Underway

end Exchange

end Switchboard
