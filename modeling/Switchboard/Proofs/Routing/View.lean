import Switchboard.Exchange.Action
import Switchboard.Proofs.Membership.Roster

/-!
# What is on its way

Handling a message touches little of an exchange: the work, the forward queue and the processors of
a shard, the queues of connections, the store for those who are away, and the number of identities
handed out. A `View` holds these apart from the rest, which is the exchange made `bare` of them.
Every operation that handles messages is an equation between views: `view_sendTo`, `view_handOver`,
`view_submit`, `view_take`, `view_relay`, `view_finish`. Fragments that are being joined are no part
of it: `assembler?` has them.
-/

namespace Switchboard

namespace Queue

variable {α : Type} {q : Queue α}

/-- Whether a queue like this one, with so many items in it, takes that many more. -/
def Accepts (q : Queue α) (waiting n : Nat) : Prop :=
  q.intake = .listening ∧ waiting + n ≤ q.capacity

instance (q : Queue α) (waiting n : Nat) : Decidable (q.Accepts waiting n) :=
  inferInstanceAs (Decidable (_ ∧ _))

/-- An item that fits is taken, and goes to the end. -/
theorem offer_of_accepts (h : q.clear.Accepts q.items.length 1) (a : α) :
    ∃ q', q.offer a = .ok q' ∧ q'.items = q.items ++ [a] ∧ q'.clear = q.clear := by
  obtain ⟨hlistening, hfits⟩ := h
  have hlt : q.items.length < q.capacity := hfits
  rw [offer, if_neg fun hne => hne hlistening, dif_pos hlt]
  exact ⟨_, rfl, rfl, rfl⟩

/-- What is taken is the oldest item. -/
theorem take?_of_cons {a : α} {rest : List α} (h : q.items = a :: rest) :
    ∃ q', q.take? = some (a, q') ∧ q'.items = rest ∧ q'.clear = q.clear := by
  cases q with
  | mk capacity items intake capacity_pos bounded =>
      subst h
      exact ⟨_, rfl, rfl, rfl⟩

theorem take?_of_nil (h : q.items = []) : q.take? = none := by
  cases q with
  | mk capacity items intake capacity_pos bounded =>
      subst h
      rfl

end Queue

/-- What waits at a shard, and what its processors have taken. -/
@[ext] structure Traffic where
  work : List Task := []
  forward : List Handover := []
  inHand : List Task := []

/-- A connection but for its queue, and the frames that wait in it. -/
@[ext] structure Mailbox where
  connection : Connection
  frames : List Bytes

def Mailbox.add (b : Mailbox) (frames : List Bytes) : Mailbox :=
  { b with frames := b.frames ++ frames }

def Connection.mailbox (c : Connection) : Mailbox :=
  { connection := { c with outbound := c.outbound.clear }, frames := c.outbound.items }

namespace Shard

def traffic (s : Shard) : Traffic :=
  { work := s.work.items, forward := s.forward.items, inHand := s.inHand }

/-- The shard as it is before anything comes to it, but for who is registered. -/
def bare (s : Shard) : Shard :=
  { s with
    work := s.work.clear, forward := s.forward.clear, assembler := .new s.assembler.limits
    counters := {}, inHand := [], nextSweep := 0 }

end Shard

/-- What handling a message touches, and the rest of the exchange. -/
@[ext] structure View where
  bare : Exchange
  traffic : Nat → Traffic
  mail : Session → Option Mailbox
  offline : OfflineStore
  issued : Nat

namespace View

def setTraffic (v : View) (shard : Nat) (t : Traffic) : View :=
  { v with traffic := fun id => if id = shard then t else v.traffic id }

/-- Puts frames into the mailbox of a session. -/
def post (v : View) (session : Session) (frames : List Bytes) : View :=
  { v with mail := fun τ => if τ = session then (v.mail τ).map (·.add frames) else v.mail τ }

/-- Whether the work queue of a shard takes that many more tasks. -/
def CanWork (v : View) (shard n : Nat) : Prop :=
  ∃ s, v.bare.shard? shard = some s ∧ s.work.Accepts (v.traffic shard).work.length n

/-- Whether the forward queue of a shard takes that many more frames. -/
def CanForward (v : View) (shard n : Nat) : Prop :=
  ∃ s, v.bare.shard? shard = some s ∧ s.forward.Accepts (v.traffic shard).forward.length n

/-- Whether the connection of a session is open and takes that many more frames. -/
def CanPost (v : View) (session : Session) (n : Nat) : Prop :=
  ∃ b, v.mail session = some b ∧ b.connection.session = session ∧ b.connection.isClosed = false ∧
    b.connection.outbound.Accepts b.frames.length n

@[simp] theorem setTraffic_setTraffic (v : View) (shard : Nat) (t t' : Traffic) :
    (v.setTraffic shard t).setTraffic shard t' = v.setTraffic shard t' := by
  refine View.ext rfl (funext fun id => ?_) rfl rfl rfl
  simp only [setTraffic]
  split
  · rfl
  · rfl

/-- What was put there waits there. -/
@[simp] theorem traffic_setTraffic (v : View) (shard : Nat) (t : Traffic) :
    (v.setTraffic shard t).traffic shard = t := if_pos rfl

theorem setTraffic_self (v : View) (shard : Nat) : v.setTraffic shard (v.traffic shard) = v := by
  refine View.ext rfl (funext fun id => ?_) rfl rfl rfl
  simp only [setTraffic]
  split
  · next h => rw [h]
  · rfl

theorem post_nil (v : View) (session : Session) : v.post session [] = v := by
  refine View.ext rfl rfl (funext fun τ => ?_) rfl rfl
  simp only [post]
  split
  · cases v.mail τ with
    | none => rfl
    | some b => exact congrArg some (Mailbox.ext rfl (List.append_nil _))
  · rfl

/-- Frames posted one after another are posted together. -/
theorem post_post (v : View) (session : Session) (frames frames' : List Bytes) :
    (v.post session frames).post session frames' = v.post session (frames ++ frames') := by
  refine View.ext rfl rfl (funext fun τ => ?_) rfl rfl
  simp only [post]
  split
  · cases v.mail τ with
    | none => rfl
    | some b => exact congrArg some (Mailbox.ext rfl (List.append_assoc ..))
  · rfl

variable {v : View}

/-- Where there is room for more there is room for less. -/
theorem CanWork.mono {shard n m : Nat} (h : v.CanWork shard n) (hle : m ≤ n) :
    v.CanWork shard m := by
  obtain ⟨s, hs, hlistening, hfits⟩ := h
  exact ⟨s, hs, hlistening, by omega⟩

theorem CanPost.mono {session : Session} {n m : Nat} (h : v.CanPost session n) (hle : m ≤ n) :
    v.CanPost session m := by
  obtain ⟨b, hmail, hsession, hopen, hlistening, hfits⟩ := h
  exact ⟨b, hmail, hsession, hopen, hlistening, by omega⟩

/-- Room that is not used up by some frames is left for others. -/
theorem CanPost.post {session : Session} {frames : List Bytes} {n : Nat}
    (h : v.CanPost session (frames.length + n)) : (v.post session frames).CanPost session n := by
  obtain ⟨b, hmail, hsession, hopen, hlistening, hfits⟩ := h
  refine ⟨b.add frames, ?_, hsession, hopen, hlistening, ?_⟩
  · show (if session = session then (v.mail session).map (·.add frames) else _) = _
    rw [if_pos rfl, hmail]
    rfl
  · -- the frames are in the queue now, and the others still fit behind them
    show (b.frames ++ frames).length + n ≤ b.connection.outbound.capacity
    rw [List.length_append]
    omega

theorem CanForward.mono {shard n m : Nat} (h : v.CanForward shard n) (hle : m ≤ n) :
    v.CanForward shard m := by
  obtain ⟨s, hs, hlistening, hfits⟩ := h
  exact ⟨s, hs, hlistening, by omega⟩

theorem CanForward.append {shard n : Nat} {handovers : List Handover}
    (h : v.CanForward shard (handovers.length + n)) : (v.setTraffic shard { v.traffic shard with
      forward := (v.traffic shard).forward ++ handovers }).CanForward shard n := by
  obtain ⟨s, hs, hlistening, hfits⟩ := h
  refine ⟨s, hs, hlistening, ?_⟩
  rw [traffic_setTraffic, List.length_append]
  omega

end View

namespace Exchange

/-- The exchange but for what handling a message touches. -/
def bare (x : Exchange) : Exchange :=
  { x with
    pool := { x.pool with shards := x.pool.shards.map Shard.bare }
    connections := .empty
    services := { x.services with offline := [] }
    issued := 0 }

/-- What waits at a shard; nothing at one that does not exist. -/
def traffic (x : Exchange) (shard : Nat) : Traffic :=
  ((x.shard? shard).map Shard.traffic).getD {}

def mail (x : Exchange) (session : Session) : Option Mailbox :=
  (x.connection? session).map Connection.mailbox

def view (x : Exchange) : View :=
  { bare := x.bare, traffic := x.traffic, mail := x.mail, offline := x.services.offline
    issued := x.issued }

section OfView

variable {x : Exchange} {v : View} (h : x.view = v)

include h

theorem bare_of_view : x.bare = v.bare := congrArg View.bare h

theorem traffic_of_view (shard : Nat) : x.view.traffic shard = v.traffic shard :=
  congrFun (congrArg View.traffic h) shard

theorem mail_of_view : x.mail = v.mail := congrArg View.mail h

theorem offline_of_view : x.services.offline = v.offline := congrArg View.offline h

theorem issued_of_view : x.issued = v.issued := congrArg View.issued h

end OfView

variable {x : Exchange} {shard : Nat} {s : Shard} {session : Session} {c : Connection}

theorem traffic_of_shard? (h : x.shard? shard = some s) : x.view.traffic shard = s.traffic := by
  show ((x.shard? shard).map Shard.traffic).getD {} = _
  rw [h]
  rfl

theorem traffic_of_none (h : x.shard? shard = none) : x.view.traffic shard = {} := by
  show ((x.shard? shard).map Shard.traffic).getD {} = _
  rw [h]
  rfl

theorem shard?_bare (x : Exchange) (shard : Nat) :
    x.bare.shard? shard = (x.shard? shard).map Shard.bare := List.getElem?_map

/-- Who holds an identity does not depend on what is on its way. -/
theorem holder?_bare (x : Exchange) (shard : Nat) (identity : String) :
    x.bare.holder? shard identity = x.holder? shard identity := by
  rw [holder?, holder?, shard?_bare]
  cases x.shard? shard with
  | none => rfl
  | some s => rfl

/-! ## Shards -/

theorem mapShard_of_none (h : x.shard? shard = none) (f : Shard → Shard) :
    x.mapShard shard f = x := by
  have hmodify : x.pool.shards.modify shard f = x.pool.shards :=
    List.modify_eq_self (List.getElem?_eq_none_iff.1 h)
  rw [mapShard, Pool.mapShard, hmodify]

/-- A shard that changes in what is on its way only changes the traffic there. -/
theorem view_mapShard {f : Shard → Shard} (h : x.shard? shard = some s)
    (hf : (f s).bare = s.bare) :
    (x.mapShard shard f).view = x.view.setTraffic shard (f s).traffic := by
  refine View.ext ?_ ?_ rfl rfl rfl
  · -- without what is on its way, the shard is the one it was
    have hbare : (x.pool.shards.modify shard f).map Shard.bare = x.pool.shards.map Shard.bare := by
      refine List.ext_getElem? fun id => ?_
      rw [List.getElem?_map, List.getElem?_map, List.getElem?_modify]
      by_cases hid : shard = id
      · have hs : x.pool.shards[id]? = some s := hid ▸ h
        simp [hid, hs, hf]
      · simp [hid]
    exact congrArg (fun shards => { x.bare with pool := { x.pool with shards } }) hbare
  · funext id
    show (((x.mapShard shard f).shard? id).map Shard.traffic).getD {} = _
    rw [shard?_mapShard, View.setTraffic]
    by_cases hid : id = shard
    · simp [hid, h]
    · simp only [if_neg hid]
      rfl

/-- A change that concerns nothing on its way. -/
theorem view_mapShard_of_same {f : Shard → Shard} (hf : ∀ s, (f s).bare = s.bare)
    (htraffic : ∀ s, (f s).traffic = s.traffic) : (x.mapShard shard f).view = x.view := by
  cases h : x.shard? shard with
  | none => rw [mapShard_of_none h]
  | some s => rw [view_mapShard h (hf s), htraffic, ← traffic_of_shard? h, View.setTraffic_self]

@[simp] theorem view_mapCounters (x : Exchange) (shard : Nat) (f : Counters → Counters) :
    (x.mapCounters shard f).view = x.view :=
  view_mapShard_of_same (fun _ => rfl) fun _ => rfl

/-- The fragments that a shard is joining. -/
def assembler? (x : Exchange) (shard : Nat) : Option Assembler :=
  (x.shard? shard).map Shard.assembler

theorem assembler?_mapShard_of_same {f : Shard → Shard} (hf : ∀ s, (f s).assembler = s.assembler)
    (x : Exchange) (id : Nat) : (x.mapShard id f).assembler? = x.assembler? := by
  funext shard
  rw [assembler?, shard?_mapShard]
  split
  · rw [Option.map_map]
    exact congrArg (fun g => (x.shard? shard).map g) (funext hf)
  · rfl

@[simp] theorem assembler?_mapCounters (x : Exchange) (id : Nat) (f : Counters → Counters) :
    (x.mapCounters id f).assembler? = x.assembler? := by
  refine assembler?_mapShard_of_same ?_ ..
  exact fun _ => rfl

/-- A shard of the bare exchange is one of the exchange. -/
theorem exists_shard? {t : Shard} (h : x.view.bare.shard? shard = some t) :
    ∃ s, x.shard? shard = some s ∧ s.bare = t := by
  have hbare : (x.shard? shard).map Shard.bare = some t := (shard?_bare x shard).symm.trans h
  exact Option.map_eq_some_iff.1 hbare

/-- A task that fits comes last at its shard. -/
theorem view_submit (h : x.view.CanWork shard 1) (task : Task) :
    ∃ y, x.submit shard task = (.ok (), y) ∧ y.view = x.view.setTraffic shard
      { x.view.traffic shard with work := (x.view.traffic shard).work ++ [task] } := by
  obtain ⟨_, ht, haccepts⟩ := h
  obtain ⟨s, hs, rfl⟩ := exists_shard? ht
  rw [traffic_of_shard? hs] at haccepts ⊢
  obtain ⟨work, hoffer, hitems, hclear⟩ := Queue.offer_of_accepts haccepts task
  refine ⟨_, by rw [submit, hs]; simp only [hoffer]; rfl, ?_⟩
  rw [view_mapShard hs (by rw [Shard.bare, Shard.bare, hclear])]
  exact congrArg (fun work => x.view.setTraffic shard { s.traffic with work }) hitems

/-- A frame that fits comes last at the shard of its target. -/
theorem view_handOver (h : x.view.CanForward shard 1) (target : String) (frame : Bytes) :
    ∃ y, x.handOver shard target frame = (.ok (), y) ∧ y.view = x.view.setTraffic shard
      { x.view.traffic shard with
        forward := (x.view.traffic shard).forward ++ [{ target, frame }] } := by
  obtain ⟨_, ht, haccepts⟩ := h
  obtain ⟨s, hs, rfl⟩ := exists_shard? ht
  rw [traffic_of_shard? hs] at haccepts ⊢
  obtain ⟨forward, hoffer, hitems, hclear⟩ := Queue.offer_of_accepts haccepts { target, frame }
  refine ⟨_, by rw [handOver, hs]; simp only [hoffer]; rfl, ?_⟩
  rw [view_mapShard hs (by rw [Shard.bare, Shard.bare, hclear])]
  exact congrArg (fun forward => x.view.setTraffic shard { s.traffic with forward }) hitems

/-- What is handed over is not joined. -/
theorem assembler?_handOver (x : Exchange) (owner : Nat) (target : String) (frame : Bytes) :
    (x.handOver owner target frame).2.assembler? = x.assembler? := by
  rw [handOver]
  cases x.shard? owner with
  | none => rfl
  | some s =>
      dsimp only
      cases s.forward.offer { target, frame } with
      | ok forward =>
          refine assembler?_mapShard_of_same ?_ ..
          exact fun _ => rfl
      | error refusal =>
          cases refusal with
          | full => rfl
          | closed => rfl

/-- A free processor takes the oldest task. -/
theorem view_take {task : Task} {rest : List Task}
    (hwork : (x.view.traffic shard).work = task :: rest)
    (hfree : (x.view.traffic shard).inHand.length < x.processors) :
    (x.take shard).view = x.view.setTraffic shard
      { x.view.traffic shard with
        work := rest, inHand := (x.view.traffic shard).inHand ++ [task] } := by
  cases hs : x.shard? shard with
  | none =>
      rw [traffic_of_none hs] at hwork
      exact absurd hwork (List.cons_ne_nil _ _).symm
  | some s =>
      rw [traffic_of_shard? hs] at hwork hfree ⊢
      have hfree : s.inHand.length < x.processors := hfree
      obtain ⟨work, htake, hrest, hclear⟩ := Queue.take?_of_cons hwork
      have heq : x.take shard
          = x.mapShard shard fun s => { s with work, inHand := s.inHand ++ [task] } := by
        rw [take, hs]
        dsimp only
        rw [if_pos hfree, htake]
      rw [heq, view_mapShard hs (by rw [Shard.bare, Shard.bare, hclear])]
      exact congrArg (fun work => x.view.setTraffic shard
        { s.traffic with work, inHand := s.inHand ++ [task] }) hrest

theorem take_of_nil (h : (x.view.traffic shard).work = []) : x.take shard = x := by
  cases hs : x.shard? shard with
  | none => rw [take, hs]
  | some s =>
      rw [traffic_of_shard? hs] at h
      rw [take, hs]
      dsimp only
      rw [Queue.take?_of_nil h, ite_self]

/-- A shard without a free processor takes nothing. -/
theorem take_of_busy (h : ¬ (x.view.traffic shard).inHand.length < x.processors) :
    x.take shard = x := by
  cases hs : x.shard? shard with
  | none => rw [take, hs]
  | some s =>
      rw [traffic_of_shard? hs] at h
      rw [take, hs]
      exact if_neg h

/-- The coordinator queues the oldest frame that was handed over. -/
theorem view_relay (hwork : x.view.CanWork shard 1) {e : Envelope} {handover : Handover}
    {rest : List Handover} (hforward : (x.view.traffic shard).forward = handover :: rest)
    (hdecode : Envelope.decode handover.frame = .ok e) :
    (x.relay shard).view = x.view.setTraffic shard
      { x.view.traffic shard with
        forward := rest
        work := (x.view.traffic shard).work
          ++ [{ envelope := e, raw := handover.frame, origin := .forwarded handover.target }] } := by
  cases hs : x.shard? shard with
  | none =>
      rw [traffic_of_none hs] at hforward
      exact absurd hforward (List.cons_ne_nil _ _).symm
  | some s =>
      rw [traffic_of_shard? hs] at hforward ⊢
      obtain ⟨forward, htake, hrest, hclear⟩ := Queue.take?_of_cons hforward
      -- the exchange after the frame was taken, where there is as much room for work as before
      obtain ⟨y, hy⟩ : ∃ y, y = (x.mapShard shard fun s => { s with forward }).mapCounters shard
        fun c => { c with forwarded := c.forwarded + 1 } := ⟨_, rfl⟩
      have hview : y.view = x.view.setTraffic shard { s.traffic with forward := rest } := by
        rw [hy, view_mapCounters, view_mapShard hs (by rw [Shard.bare, Shard.bare, hclear])]
        exact congrArg (fun forward => x.view.setTraffic shard { s.traffic with forward }) hrest
      have hroom : y.view.CanWork shard 1 := by
        obtain ⟨t, ht, haccepts⟩ := hwork
        rw [traffic_of_shard? hs] at haccepts
        rw [hview]
        exact ⟨t, ht, by rwa [View.traffic_setTraffic]⟩
      obtain ⟨z, hsubmit, hz⟩ := view_submit hroom
        { envelope := e, raw := handover.frame, origin := .forwarded handover.target }
      have heq : x.relay shard = (y.enqueue shard handover.frame (some handover.target)).2 := by
        rw [relay, hs]
        dsimp only
        rw [htake, hy]
      rw [heq, enqueue, hdecode]
      dsimp only
      rw [hsubmit, hz, hview, View.traffic_setTraffic, View.setTraffic_setTraffic]

theorem relay_of_nil (h : (x.view.traffic shard).forward = []) : x.relay shard = x := by
  cases hs : x.shard? shard with
  | none => rw [relay, hs]
  | some s =>
      rw [traffic_of_shard? hs] at h
      rw [relay, hs]
      dsimp only
      rw [Queue.take?_of_nil h]

/-- The exchange after a processor has put down the task in some slot. -/
def putDown (x : Exchange) (shard slot : Nat) : Exchange :=
  x.mapShard shard fun s => { s with inHand := s.inHand.eraseIdx slot }

section PutDown

variable {slot : Nat} {task : Task} (h : (x.view.traffic shard).inHand[slot]? = some task)

include h

/-- To finish is to put the task down and to route it. -/
theorem finish_eq_routeTask : x.finish shard slot = (x.putDown shard slot).routeTask shard task := by
  cases hs : x.shard? shard with
  | none =>
      rw [traffic_of_none hs] at h
      exact absurd h.symm (Option.some_ne_none _)
  | some s =>
      rw [traffic_of_shard? hs] at h
      have hslot : s.inHand[slot]? = some task := h
      rw [finish, hs]
      dsimp only
      rw [hslot]
      rfl

theorem view_putDown : (x.putDown shard slot).view = x.view.setTraffic shard
    { x.view.traffic shard with inHand := (x.view.traffic shard).inHand.eraseIdx slot } := by
  cases hs : x.shard? shard with
  | none =>
      rw [traffic_of_none hs] at h
      exact absurd h.symm (Option.some_ne_none _)
  | some s =>
      rw [traffic_of_shard? hs]
      exact view_mapShard hs rfl

/-- A processor puts a task down and routes it. -/
theorem view_finish :
    ∃ y : Exchange, x.finish shard slot = y.routeTask shard task ∧
      y.view = x.view.setTraffic shard
        { x.view.traffic shard with inHand := (x.view.traffic shard).inHand.eraseIdx slot } :=
  ⟨x.putDown shard slot, finish_eq_routeTask h, view_putDown h⟩

end PutDown

/-- There is nothing to finish in an empty slot. -/
theorem finish_of_none {slot : Nat} (h : (x.view.traffic shard).inHand[slot]? = none) :
    x.finish shard slot = x := by
  cases hs : x.shard? shard with
  | none => rw [finish, hs]
  | some s =>
      rw [traffic_of_shard? hs] at h
      have hslot : s.inHand[slot]? = none := h
      rw [finish, hs]
      dsimp only
      rw [hslot]

@[simp] theorem view_sweep (x : Exchange) (shard : Nat) : (x.sweep shard).view = x.view :=
  view_mapShard_of_same (fun _ => rfl) fun _ => rfl

/-! ## Connections -/

/-- A connection put back with more frames has them behind the others. -/
theorem view_putConnection {c' : Connection} {frames : List Bytes}
    (h : x.connection? c.session = some c) (hsession : c'.session = c.session)
    (hmailbox : c'.mailbox = c.mailbox.add frames) :
    (x.putConnection c').view = x.view.post c.session frames := by
  refine View.ext rfl rfl (funext fun τ => ?_) rfl rfl
  show ((x.putConnection c').connection? τ).map Connection.mailbox
    = if τ = c.session then (x.mail τ).map (·.add frames) else x.mail τ
  rw [connection?_putConnection, hsession]
  by_cases hτ : τ = c.session
  · rw [if_pos hτ, if_pos hτ, hτ, mail, h]
    exact congrArg some hmailbox
  · rw [if_neg hτ, if_neg hτ]
    rfl

/-- An open connection with room takes a frame. -/
theorem view_sendTo (h : x.view.CanPost session 1) (frame : Bytes) :
    ∃ y, x.sendTo session frame = (.ok (), y) ∧ y.view = x.view.post session [frame] := by
  obtain ⟨_, hmail, hsession, hopen, haccepts⟩ := h
  obtain ⟨c, hc, rfl⟩ := Option.map_eq_some_iff.1 hmail
  -- the mailbox is that of the connection, so the connection is open and has room
  obtain rfl : c.session = session := hsession
  have hopen : c.isClosed = false := hopen
  obtain ⟨outbound, hoffer, hitems, hclear⟩ := Queue.offer_of_accepts haccepts frame
  have hsend : c.send frame = .ok { c with outbound } := by
    rw [Connection.send, hopen, hoffer]
    rfl
  refine ⟨x.putConnection { c with outbound }, by rw [sendTo, hc]; simp only [hsend], ?_⟩
  refine view_putConnection hc rfl (Mailbox.ext ?_ hitems)
  exact congrArg (fun outbound => { c with outbound }) hclear

end Exchange

end Switchboard
