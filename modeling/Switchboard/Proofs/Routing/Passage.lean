import Mathlib.Data.List.Perm.Basic
import Switchboard.Proofs.Routing.Run

/-!
# Frames on their way

The frames of a message that was handed over to the shard of its target wait there, are queued, are
taken by processors, and are written to the connection. A `Passage` is how far each of them has
come. In a pool that is otherwise at rest (`Ready`), processors and coordinator of the shard do to
an exchange with frames on their way (`View.passing`) what the passage says: `passing_take`,
`passing_relay`, `passing_finish`. None of them loses a frame or makes more of them.
-/

namespace Switchboard

section EraseIdx

variable {α : Type} {items : List α} {item : α} {n : Nat}

theorem cons_eraseIdx_perm (h : items[n]? = some item) : (item :: items.eraseIdx n).Perm items := by
  obtain ⟨hn, rfl⟩ := List.getElem?_eq_some_iff.1 h
  exact List.getElem_cons_eraseIdx_perm hn

/-- One thing alone is taken from the front, and nothing is left. -/
theorem cons_eraseIdx_of_single (h : items[n]? = some item) (hsingle : items.length ≤ 1) :
    item :: items.eraseIdx n = items := by
  obtain ⟨hn, rfl⟩ := List.getElem?_eq_some_iff.1 h
  obtain ⟨only, rfl⟩ := List.length_eq_one_iff.1 (show items.length = 1 by omega)
  obtain rfl : n = 0 := by
    rw [List.length_singleton] at hn
    omega
  rfl

end EraseIdx

/-- The frames of a message that was handed over, by how far they have come. -/
structure Passage where
  /-- Written to the connection, the first one first. -/
  arrived : List Bytes
  /-- Taken by processors. -/
  inHand : List Bytes
  queued : List Bytes
  handed : List Bytes

namespace Passage

def frames (p : Passage) : List Bytes := p.arrived ++ p.inHand ++ p.queued ++ p.handed

/-- The task that comes of a frame handed over for a target. -/
def task (target : String) (frame : Bytes) : Task :=
  { envelope := (Envelope.decode frame).toOption.getD default, raw := frame
    origin := .forwarded target }

def traffic (p : Passage) (target : String) : Traffic :=
  { work := p.queued.map (task target), forward := p.handed.map (Handover.mk target)
    inHand := p.inHand.map (task target) }

/-- A processor has taken a frame. -/
def take (p : Passage) (frame : Bytes) (rest : List Bytes) : Passage :=
  { p with queued := rest, inHand := p.inHand ++ [frame] }

/-- A frame that was handed over is queued. -/
def relay (p : Passage) (frame : Bytes) (rest : List Bytes) : Passage :=
  { p with handed := rest, queued := p.queued ++ [frame] }

/-- A processor has written the frame in some slot. -/
def finish (p : Passage) (slot : Nat) (frame : Bytes) : Passage :=
  { p with inHand := p.inHand.eraseIdx slot, arrived := p.arrived ++ [frame] }

/-- The number of steps that the frames still have to take: a processor finishes one that it has in
hand, and has to take one before that, and one that was handed over has to be queued first. -/
def todo (p : Passage) : Nat := 3 * p.handed.length + 2 * p.queued.length + p.inHand.length

variable {p : Passage} {frame : Bytes} {rest : List Bytes}

theorem mem_frames_of_handed (p : Passage) (h : frame ∈ p.handed) : frame ∈ p.frames :=
  List.mem_append_right _ h

/-- When nothing is left to be done, nothing waits. -/
theorem traffic_of_todo (h : p.todo = 0) (target : String) : p.traffic target = {} := by
  rw [todo] at h
  have hinHand : p.inHand = [] := List.eq_nil_of_length_eq_zero (by omega)
  have hqueued : p.queued = [] := List.eq_nil_of_length_eq_zero (by omega)
  have hhanded : p.handed = [] := List.eq_nil_of_length_eq_zero (by omega)
  rw [traffic, hinHand, hqueued, hhanded]
  rfl

/-- Where nothing waits, all frames have arrived. -/
theorem frames_of_idle {target : String} (h : p.traffic target = {}) : p.frames = p.arrived := by
  have hqueued : p.queued = [] := List.map_eq_nil_iff.1 (congrArg Traffic.work h)
  have hhanded : p.handed = [] := List.map_eq_nil_iff.1 (congrArg Traffic.forward h)
  have hinHand : p.inHand = [] := List.map_eq_nil_iff.1 (congrArg Traffic.inHand h)
  rw [frames, hinHand, hqueued, hhanded, List.append_nil, List.append_nil, List.append_nil]

/-- Every step brings one frame nearer, and so does taking one. -/
theorem todo_take (h : p.queued = frame :: rest) : (p.take frame rest).todo + 1 = p.todo := by
  simp only [todo, take, h, List.length_append, List.length_cons, List.length_nil]
  omega

theorem todo_relay (h : p.handed = frame :: rest) : (p.relay frame rest).todo + 1 = p.todo := by
  simp only [todo, relay, h, List.length_append, List.length_cons, List.length_nil]
  omega

theorem todo_finish {slot : Nat} (h : p.inHand[slot]? = some frame) :
    (p.finish slot frame).todo + 1 = p.todo := by
  obtain ⟨hslot, -⟩ := List.getElem?_eq_some_iff.1 h
  simp only [todo, finish, List.length_eraseIdx_of_lt hslot]
  omega

/-- A frame that is taken is still on its way. -/
theorem frames_take (h : p.queued = frame :: rest) : (p.take frame rest).frames = p.frames := by
  simp only [frames, take, h, List.append_assoc, List.cons_append, List.nil_append]

theorem frames_relay (h : p.handed = frame :: rest) : (p.relay frame rest).frames = p.frames := by
  simp only [frames, relay, h, List.append_assoc, List.cons_append, List.nil_append]

/-- Writing a frame does not lose any, nor make more of them. -/
theorem frames_finish_perm {slot : Nat} (h : p.inHand[slot]? = some frame) :
    (p.finish slot frame).frames.Perm p.frames := by
  have hinHand := cons_eraseIdx_perm h
  rw [frames, frames, finish, List.append_assoc p.arrived]
  exact ((hinHand.append_left p.arrived).append_right p.queued).append_right p.handed

/-- One processor writes the frames in order. -/
theorem frames_finish_of_single {slot : Nat} (h : p.inHand[slot]? = some frame)
    (hsingle : p.inHand.length ≤ 1) : (p.finish slot frame).frames = p.frames := by
  have hinHand := cons_eraseIdx_of_single h hsingle
  rw [frames, frames, finish, List.append_assoc p.arrived]
  exact congrArg (p.arrived ++ · ++ p.queued ++ p.handed) hinHand

end Passage

namespace Exchange

/-- Identities are held at shards that there are. -/
theorem isSome_shard?_of_holder? {x : Exchange} {shard : Nat} {identity : String}
    {session : Session} (h : x.holder? shard identity = some session) :
    (x.shard? shard).isSome := by
  rw [holder?] at h
  cases hs : x.shard? shard with
  | none =>
      rw [hs] at h
      exact absurd h.symm (Option.some_ne_none _)
  | some s => rfl

section Bare

variable {x y : Exchange} (h : y.bare = x.bare)

include h

/-- Handling messages changes neither who holds an identity nor anything else that is asked for to
route one. -/
theorem holder?_of_bare (shard : Nat) (identity : String) :
    y.holder? shard identity = x.holder? shard identity := by
  rw [← holder?_bare, h, holder?_bare]

theorem isSome_shard?_of_bare {shard : Nat} (hshard : (x.shard? shard).isSome) :
    (y.shard? shard).isSome := by
  have hbare : (y.bare.shard? shard).isSome := by
    rw [h, shard?_bare, Option.isSome_map]
    exact hshard
  rwa [shard?_bare, Option.isSome_map] at hbare

theorem config_of_bare : y.config = x.config := by
  show y.bare.config = x.bare.config
  rw [h]

theorem now_of_bare : y.now = x.now := by
  show y.bare.now = x.bare.now
  rw [h]

theorem isOnline_of_bare (identity : String) :
    y.services.presence.isOnline identity = x.services.presence.isOnline identity := by
  show y.bare.services.presence.isOnline identity = x.bare.services.presence.isOnline identity
  rw [h]

theorem index_of_bare : y.pool.index = x.pool.index := by
  show y.bare.pool.index = x.bare.pool.index
  rw [h]

theorem prompts_of_bare : y.pool.prompts = x.pool.prompts := by
  show y.bare.pool.prompts = x.bare.pool.prompts
  rw [h]

/-- What a shard takes for a fragment is not a matter of what is on its way. -/
theorem exists_limits_of_bare {shard : Nat} {s : Shard} (hs : y.shard? shard = some s) :
    ∃ t, x.shard? shard = some t ∧ s.assembler.limits = t.assembler.limits := by
  have hbare : x.bare.shard? shard = some s.bare := by
    rw [← h, shard?_bare, hs]
    rfl
  -- without what is on its way, every shard is the shard that it was
  obtain ⟨t, ht, hsame⟩ := exists_shard? hbare
  have hlimits : s.bare.assembler.limits = t.bare.assembler.limits := by rw [hsame]
  exact ⟨t, ht, hlimits⟩

/-- A plain pool stays one while messages are handled. -/
theorem plain_of_bare (hx : x.Plain) : y.Plain where
  off := (congrArg (fun x : Exchange => x.services.publishing) h).trans hx.off
  well := (congrArg (fun x : Exchange => x.services.outages) h).trans hx.well
  reachable := (congrArg (fun x : Exchange => x.pool.isReachable) h).trans hx.reachable
  limits shard s hs := by
    obtain ⟨t, ht, hlimits⟩ := exists_limits_of_bare h hs
    rw [config_of_bare h, hlimits]
    exact hx.limits shard t ht

/-- What a message is to the exchange does not change while no identity is handed out. -/
theorem direct_of_bare (hissued : y.issued = x.issued) {e : Envelope} (he : x.Direct e) :
    y.Direct e where
  recipient := he.recipient
  kind := he.kind
  person := (congrArg (fun x : Exchange => x.services.isAssistant e.recipient) h).trans he.person
  whole := he.whole
  measured := by
    rw [timestamp, now_of_bare h, hissued]
    exact he.measured
  splits := by
    rw [timestamp, config_of_bare h, now_of_bare h, hissued]
    exact he.splits

/-- Nor do the frames that it goes out in. -/
theorem frames_of_bare (hissued : y.issued = x.issued) (e : Envelope) (raw : Bytes) :
    y.frames e raw = x.frames e raw := by
  rw [frames, frames, timestamp, timestamp, config_of_bare h, now_of_bare h, hissued]

end Bare

/-- Nothing is on its way at any shard. -/
def AtRest (x : Exchange) : Prop := ∀ shard, x.view.traffic shard = {}

/-- A pool at rest, without a broker, where registries, index and presence service agree, and with
room for that many more in every queue. -/
structure Ready (x : Exchange) (room : Nat) : Prop where
  plain : x.Plain
  rest : x.AtRest
  noPrompt : x.pool.prompts = []
  agrees : ∀ identity, x.roster.Agrees identity
  work : ∀ shard, (x.shard? shard).isSome → x.view.CanWork shard room
  forward : ∀ shard, (x.shard? shard).isSome → x.view.CanForward shard room
  /-- A connection that holds an identity is open, and its writer takes more frames. -/
  outbound : ∀ shard identity session, x.holder? shard identity = some session →
    x.view.CanPost session room

end Exchange

namespace View

/-- A view at rest with the frames of a message on their way to a session at a shard. -/
def passing (v : View) (n owner : Nat) (session : Session) (target : String) (p : Passage) :
    View :=
  ({ v with issued := n }.post session p.arrived).setTraffic owner (p.traffic target)

end View

namespace Exchange

section Passing

variable {x y : Exchange} {room n owner : Nat} {session : Session} {target : String} {p : Passage}
  {frame : Bytes} {rest : List Bytes}

/-- At the shard of the target, what waits is what the passage says. -/
theorem traffic_of_passing (h : y.view = x.view.passing n owner session target p) :
    y.view.traffic owner = p.traffic target := by
  rw [h]
  exact View.traffic_setTraffic ..

/-- Nothing is on its way but at one shard. -/
theorem traffic_of_passing_ne (hx : x.Ready room)
    (h : y.view = x.view.passing n owner session target p) {shard : Nat} (hne : shard ≠ owner) :
    y.view.traffic shard = {} := by
  rw [h]
  exact (if_neg hne).trans (hx.rest shard)

/-- A processor that takes a task has the oldest of the queued frames in hand. -/
theorem passing_take (h : y.view = x.view.passing n owner session target p)
    (hqueued : p.queued = frame :: rest) (hfree : p.inHand.length < y.processors) :
    (y.take owner).view = x.view.passing n owner session target (p.take frame rest) := by
  have htraffic := traffic_of_passing h
  have hwork : (y.view.traffic owner).work
      = Passage.task target frame :: rest.map (Passage.task target) := by
    rw [htraffic, Passage.traffic, hqueued]
    rfl
  have hinHand : (y.view.traffic owner).inHand.length < y.processors := by
    rw [htraffic, Passage.traffic, List.length_map]
    exact hfree
  rw [view_take hwork hinHand, htraffic, h, View.passing, View.setTraffic_setTraffic]
  simp only [View.passing, Passage.take, Passage.traffic, List.map_append, List.map_cons,
    List.map_nil]

/-- The coordinator queues the oldest of the frames that were handed over: there is room for all of
them. -/
theorem passing_relay (hx : x.Ready room) (hheld : x.holder? owner target = some session)
    (h : y.view = x.view.passing n owner session target p) (hlength : p.frames.length = room)
    (hhanded : p.handed = frame :: rest) {f : Envelope} (hdecode : Envelope.decode frame = .ok f) :
    (y.relay owner).view = x.view.passing n owner session target (p.relay frame rest) := by
  have htraffic := traffic_of_passing h
  have hforward : (y.view.traffic owner).forward
      = Handover.mk target frame :: rest.map (Handover.mk target) := by
    rw [htraffic, Passage.traffic, hhanded]
    rfl
  have hwork : y.view.CanWork owner 1 := by
    obtain ⟨s, hs, hlistening, hfits⟩ := hx.work owner (isSome_shard?_of_holder? hheld)
    refine ⟨s, by rw [h]; exact hs, hlistening, ?_⟩
    rw [hx.rest owner] at hfits
    have hfits : 0 + room ≤ s.work.capacity := hfits
    rw [htraffic, Passage.traffic, List.length_map]
    -- the frame is one of those that are not queued yet
    simp only [Passage.frames, hhanded, List.length_append, List.length_cons] at hlength
    omega
  -- it comes back from the forward queue as the envelope that it reads as
  have htask : ({ envelope := f, raw := frame, origin := .forwarded target } : Task)
      = Passage.task target frame := by
    rw [Passage.task, hdecode]
    rfl
  rw [view_relay hwork hforward hdecode, htask, htraffic, h, View.passing,
    View.setTraffic_setTraffic]
  simp only [View.passing, Passage.relay, Passage.traffic, List.map_append, List.map_cons,
    List.map_nil]

/-- A processor that routes its task writes the frame behind those that have arrived. -/
theorem passing_finish (hx : x.Ready room) (hheld : x.holder? owner target = some session)
    (h : y.view = x.view.passing n owner session target p) (hlength : p.frames.length = room)
    {slot : Nat} (hinHand : p.inHand[slot]? = some frame) :
    (y.finish owner slot).view = x.view.passing n owner session target (p.finish slot frame) := by
  have htraffic := traffic_of_passing h
  have hslot : (y.view.traffic owner).inHand[slot]? = some (Passage.task target frame) := by
    rw [htraffic, Passage.traffic, List.getElem?_map, hinHand]
    rfl
  obtain ⟨z, hfinish, hz⟩ := view_finish hslot
  have hbare : z.bare = x.bare := by
    have heq := congrArg View.bare (hz.trans (by rw [h]))
    exact heq
  -- there is room for all frames, and this one is not among those that arrived
  have hroom : z.view.CanPost session 1 := by
    have hlt : p.arrived.length + 1 ≤ room := by
      have := (List.getElem?_eq_some_iff.1 hinHand).1
      simp only [Passage.frames, List.length_append] at hlength
      omega
    have hpost := ((hx.outbound owner target session hheld).mono hlt).post
    rw [hz, h]
    exact hpost
  have hroute : (z.routeTask owner (Passage.task target frame)).view
      = z.view.post session [frame] :=
    view_routeTask_of_forwarded ((holder?_of_bare hbare owner target).trans hheld) hroom
  rw [hfinish]
  refine hroute.trans ?_
  have hput : ({ p.traffic target with inHand := (p.traffic target).inHand.eraseIdx slot } : Traffic)
      = (p.finish slot frame).traffic target := by
    simp only [Passage.traffic, Passage.finish, List.eraseIdx_map]
  rw [hz, htraffic, hput, h, View.passing, View.setTraffic_setTraffic, View.passing,
    Passage.finish, ← View.post_post]
  rfl

end Passing

end Exchange

end Switchboard
