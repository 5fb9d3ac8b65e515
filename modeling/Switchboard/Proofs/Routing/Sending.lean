import Switchboard.Proofs.Routing.Trail

/-!
# Sending into queues that may be full

What a shard is handed for another goes into its forward queue up to the first frame for which there
is no room, and what is written to a connection likewise. Of the frames of a message a queue takes the
first few, and nothing else changes but what is counted: a message that is written is counted once,
as delivered or as dropped, and one that is handed over is not counted at all.
-/

namespace Switchboard

namespace Exchange

/-- What a shard has counted. -/
def counters? (x : Exchange) (shard : Nat) : Option Counters :=
  (x.shard? shard).map Shard.counters

theorem counters?_mapShard_of_same {f : Shard → Shard} (hf : ∀ s, (f s).counters = s.counters)
    (x : Exchange) (id : Nat) : (x.mapShard id f).counters? = x.counters? := by
  funext shard
  rw [counters?, shard?_mapShard]
  split
  · rw [Option.map_map]
    exact congrArg (fun g => (x.shard? shard).map g) (funext hf)
  · rfl

/-- One shard counts at a time. -/
theorem counters?_mapCounters (x : Exchange) (id : Nat) (f : Counters → Counters) (shard : Nat) :
    (x.mapCounters id f).counters? shard
      = if shard = id then (x.counters? shard).map f else x.counters? shard := by
  rw [counters?, mapCounters, shard?_mapShard]
  split
  · rw [counters?, Option.map_map, Option.map_map]
    rfl
  · rfl

/-- A connection that takes a frame, or refuses it, counts nothing. -/
theorem counters?_sendTo (x : Exchange) (session : Session) (frame : Bytes) :
    (x.sendTo session frame).2.counters? = x.counters? := by
  rw [sendTo]
  split
  · rfl
  · split
    · rfl
    · rfl

/-- A queue that takes something is the same queue with more in it. -/
theorem clear_of_offer {α : Type} {q q' : Queue α} {a : α} (h : q.offer a = .ok q') :
    q'.clear = q.clear := by
  rw [Queue.offer] at h
  split at h
  · cases h
  · split at h
    · obtain rfl := Except.ok.inj h
      rfl
    · cases h

/-- A queue that listens may be full, but not closed. -/
theorem offer_ne_closed {α : Type} {q : Queue α} (h : q.intake = .listening) (a : α) :
    q.offer a ≠ .error .closed := by
  rw [Queue.offer, if_neg fun hne => hne h]
  split
  · intro heq
    cases heq
  · intro heq
    cases heq

/-- Nor does a shard count what is handed over to it. -/
theorem counters?_handOver (x : Exchange) (owner : Nat) (target : String) (frame : Bytes) :
    (x.handOver owner target frame).2.counters? = x.counters? := by
  rw [handOver]
  split
  · rfl
  · split
    · refine counters?_mapShard_of_same ?_ x owner
      exact fun _ => rfl
    · rfl
    · rfl

/-- What a queue took had room there. -/
theorem canForward_of_offer {x : Exchange} {owner : Nat} {s : Shard} {handover : Handover}
    {forward : Queue Handover} (hs : x.shard? owner = some s)
    (hoffer : s.forward.offer handover = .ok forward) : x.view.CanForward owner 1 := by
  have hbare : x.view.bare.shard? owner = some s.bare := by
    show x.bare.shard? owner = _
    rw [shard?_bare, hs]
    rfl
  refine ⟨s.bare, hbare, ?_⟩
  rw [Queue.offer] at hoffer
  split at hoffer
  · cases hoffer
  · rename_i hlistening
    split at hoffer
    · rename_i hfits
      rw [traffic_of_shard? hs]
      exact ⟨Decidable.not_not.1 hlistening, hfits⟩
    · cases hoffer

/-- A frame that is handed over waits at the end of the forward queue, or there is no room for it. -/
theorem handOver_cases (x : Exchange) (owner : Nat) (target : String) (frame : Bytes) :
    (∃ y, x.handOver owner target frame = (.ok (), y) ∧ y.counters? = x.counters? ∧
      y.view = x.view.setTraffic owner { x.view.traffic owner with
        forward := (x.view.traffic owner).forward ++ [{ target, frame }] }) ∨
    ((∃ fault, x.handOver owner target frame = (.error fault, x)) ∧
      ¬ x.view.CanForward owner 1) := by
  -- either there is room and the frame is taken, or it is refused and nothing happens
  by_cases hroom : x.view.CanForward owner 1
  · obtain ⟨y, hhand, hview⟩ := view_handOver hroom target frame
    refine Or.inl ⟨y, hhand, ?_, hview⟩
    have hcounters := x.counters?_handOver owner target frame
    rw [hhand] at hcounters
    exact hcounters
  · refine Or.inr ⟨?_, hroom⟩
    rw [handOver]
    cases hs : x.shard? owner with
    | none => exact ⟨_, rfl⟩
    | some s =>
        dsimp only
        cases hoffer : s.forward.offer { target, frame } with
        | error refusal =>
            cases refusal with
            | full => exact ⟨_, rfl⟩
            | closed => exact ⟨_, rfl⟩
        | ok forward => exact absurd (canForward_of_offer hs hoffer) hroom

/-- A task that is queued waits at the end of the work queue, or is refused, and nothing moves. A
shard that listens counts what it refuses. -/
theorem submit_cases (x : Exchange) (shard : Nat) (task : Task) :
    (∃ y, x.submit shard task = (.ok (), y) ∧ y.counters? = x.counters? ∧
      y.view = x.view.setTraffic shard { x.view.traffic shard with
        work := (x.view.traffic shard).work ++ [task] }) ∨
    ∃ fault y, x.submit shard task = (.error fault, y) ∧ y.view = x.view ∧
      ∀ s, x.shard? shard = some s → s.work.intake = .listening → y = x.countDropped shard := by
  rw [submit]
  cases hs : x.shard? shard with
  | none => exact Or.inr ⟨_, _, rfl, rfl, fun s hs => absurd hs.symm (Option.some_ne_none s)⟩
  | some s =>
      dsimp only
      cases hoffer : s.work.offer task with
      | error refusal =>
          cases refusal with
          | full => exact Or.inr ⟨_, _, rfl, view_mapCounters _ _ _, fun _ _ _ => rfl⟩
          | closed =>
              -- this shard does not listen, so nothing is said of what it counts
              refine Or.inr ⟨_, _, rfl, rfl, fun t ht hlistening => ?_⟩
              obtain rfl := Option.some.inj ht
              exact absurd hoffer (offer_ne_closed hlistening task)
      | ok work =>
          refine Or.inl ⟨_, rfl, ?_, ?_⟩
          · refine counters?_mapShard_of_same ?_ x shard
            exact fun _ => rfl
          · rw [view_mapShard hs (by rw [Shard.bare, Shard.bare, clear_of_offer hoffer]),
              traffic_of_shard? hs]
            exact congrArg (fun work => x.view.setTraffic shard { s.traffic with work })
              (items_of_offer hoffer)

variable {x y : Exchange}

/-- What waits at a connection is in its mailbox. -/
theorem waiting_of_view (x : Exchange) (session : Session) :
    x.waiting session = ((x.view.mail session).map Mailbox.frames).getD [] := by
  show _ = (((x.connection? session).map Connection.mailbox).map Mailbox.frames).getD []
  rw [Option.map_map]
  rfl

/-- Tasks came into the work queue of a shard. -/
structure Queued (shard : Nat) (tasks : List Task) (x y : Exchange) : Prop where
  work : ∀ id, (y.traffic id).work
    = (x.traffic id).work ++ if id = shard then tasks else []
  forward : ∀ id, (y.traffic id).forward = (x.traffic id).forward
  waiting : ∀ session, y.waiting session = x.waiting session

theorem queued_of_view {shard : Nat} {tasks : List Task} (h : y.view = x.view.setTraffic shard
      { x.view.traffic shard with work := (x.view.traffic shard).work ++ tasks }) :
    Queued shard tasks x y := by
  have htraffic : ∀ id, y.traffic id = if id = shard then
      { x.traffic shard with work := (x.traffic shard).work ++ tasks } else x.traffic id :=
    traffic_of_view h
  refine ⟨fun id => ?_, fun id => ?_, fun τ => ?_⟩
  · rw [htraffic]
    split
    · rename_i hid
      rw [hid]
    · exact (List.append_nil _).symm
  · rw [htraffic]
    split
    · rename_i hid
      rw [hid]
    · rfl
  · rw [waiting_of_view, waiting_of_view, h]
    rfl

/-- Where nothing on its way has changed, no task came in. -/
theorem queued_nothing (shard : Nat) (h : y.view = x.view) : Queued shard [] x y := by
  refine queued_of_view ?_
  rw [List.append_nil, h]
  exact (View.setTraffic_self ..).symm

/-- A task is queued, or refused. -/
theorem queued_submit (x : Exchange) (shard : Nat) (task : Task) :
    ((x.submit shard task).1 = .ok () ∧ Queued shard [task] x (x.submit shard task).2) ∨
    ((∃ fault, (x.submit shard task).1 = .error fault)
      ∧ Queued shard [] x (x.submit shard task).2) := by
  -- a refusal may be counted, and that is not seen in any queue
  rcases x.submit_cases shard task with ⟨y, hsubmit, -, hview⟩ | ⟨fault, y, hsubmit, hview, -⟩
  · rw [hsubmit]
    exact Or.inl ⟨rfl, queued_of_view hview⟩
  · rw [hsubmit]
    exact Or.inr ⟨⟨fault, rfl⟩, queued_nothing shard hview⟩

/-- A frame that was handed over is queued for its target, or refused. -/
theorem queued_enqueue (x : Exchange) (shard : Nat) (raw : Bytes) (target : String) :
    ∃ tasks, (tasks = [] ∨ ∃ e, tasks = [{ envelope := e, raw, origin := .forwarded target }])
      ∧ Queued shard tasks x (x.enqueue shard raw (some target)).2 := by
  rw [enqueue]
  cases Envelope.decode raw with
  | error fault => exact ⟨[], Or.inl rfl, queued_nothing shard (view_mapCounters _ _ _)⟩
  | ok e =>
      rcases x.queued_submit shard { envelope := e, raw, origin := .forwarded target } with
        ⟨-, hqueued⟩ | ⟨-, hqueued⟩
      · exact ⟨_, Or.inr ⟨e, rfl⟩, hqueued⟩
      · exact ⟨[], Or.inl rfl, hqueued⟩

/-- Frames came into the forward queue of a shard. -/
structure Handed (owner : Nat) (target : String) (frames : List Bytes) (x y : Exchange) : Prop where
  work : ∀ id, (y.traffic id).work = (x.traffic id).work
  forward : ∀ id, (y.traffic id).forward
    = (x.traffic id).forward ++ if id = owner then frames.map (Handover.mk target) else []
  waiting : ∀ session, y.waiting session = x.waiting session

theorem handed_of_view {owner : Nat} {target : String} {frames : List Bytes}
    (h : y.view = x.view.setTraffic owner { x.view.traffic owner with
      forward := (x.view.traffic owner).forward ++ frames.map (Handover.mk target) }) :
    Handed owner target frames x y := by
  have htraffic : ∀ id, y.traffic id = if id = owner then
      { x.traffic owner with
        forward := (x.traffic owner).forward ++ frames.map (Handover.mk target) }
      else x.traffic id :=
    traffic_of_view h
  refine ⟨fun id => ?_, fun id => ?_, fun τ => ?_⟩
  · rw [htraffic]
    split
    · rename_i hid
      rw [hid]
    · rfl
  · rw [htraffic]
    split
    · rename_i hid
      rw [hid]
    · exact (List.append_nil _).symm
  · rw [waiting_of_view, waiting_of_view, h]
    rfl

end Exchange

namespace Routing

variable {α β : Type} {s s' : Errand} {P : Exchange → Prop}

/-- Something holds of the exchange that a part leaves, whether it comes to its end or stops. -/
def Leaves (part : Routing α) (s : Errand) (P : Exchange → Prop) : Prop :=
  P (part.run.run s).2.exchange

/-- A part that stops leaves what it left, and another one goes on from there. -/
theorem Leaves.bind {part : Routing α} {next : α → Routing β}
    (hend : ∀ a s', part.run.run s = (.ok a, s') → Leaves (next a) s' P)
    (hstop : ∀ stop s', part.run.run s = (.error stop, s') → P s'.exchange) :
    Leaves (part >>= next) s P := by
  rw [Leaves, run_bind]
  cases hrun : part.run.run s with
  | mk result s' =>
      cases result with
      | ok a => exact hend a s' hrun
      | error stop => exact hstop stop s' hrun

theorem Runs.bind_leaves {part : Routing α} {next : α → Routing β} {a : α} (h : Runs part s a s')
    (h' : Leaves (next a) s' P) : Leaves (part >>= next) s P := by
  rw [Leaves, h.run_bind]
  exact h'

theorem Leaves.exchange_bind {next : Exchange → Routing β} (h : Leaves (next s.exchange) s P) :
    Leaves (exchange >>= next) s P := Runs.bind_leaves rfl h

theorem Ends.leaves {part : Routing α} {Q : Errand → Prop} (h : Ends part s Q)
    (hP : ∀ s', Q s' → P s'.exchange) : Leaves part s P := by
  obtain ⟨result, s', hrun, -, hs'⟩ := h
  rw [Leaves, hrun]
  exact hP s' hs'

/-- **A shard is handed frames up to the first that it has no room for.** -/
theorem handed_forward (owner : Nat) (target : String) (frames : List Bytes) (s : Errand) :
    ∃ k ≤ frames.length, Leaves (forward owner target frames) s fun y =>
      y.view = s.exchange.view.setTraffic owner { s.exchange.view.traffic owner with
        forward := (s.exchange.view.traffic owner).forward
          ++ (frames.take k).map (Handover.mk target) } ∧
      y.counters? = s.exchange.counters? ∧
      (k < frames.length → ¬ y.view.CanForward owner 1) := by
  induction frames generalizing s with
  | nil =>
      refine ⟨0, Nat.le_refl 0, ?_, rfl, fun h => absurd h (Nat.lt_irrefl 0)⟩
      rw [List.take_nil, List.map_nil, List.append_nil]
      exact (View.setTraffic_self ..).symm
  | cons frame frames ih =>
      rcases s.exchange.handOver_cases owner target frame with
        ⟨y, hhand, hcounters, hview⟩ | ⟨⟨fault, hhand⟩, hroom⟩
      · -- one frame is taken, and the others follow it
        have hstep : Runs (step .fault (·.handOver owner target frame)) s ()
            { s with exchange := y } := runs_step hhand
        obtain ⟨k, hk, hleaves⟩ := ih { s with exchange := y }
        refine ⟨k + 1, Nat.succ_le_succ hk, hstep.bind_leaves ?_⟩
        obtain ⟨hview', hcounters', hroom⟩ := hleaves
        refine ⟨?_, hcounters'.trans hcounters, fun h => hroom (Nat.lt_of_succ_lt_succ h)⟩
        rw [hview', hview, View.setTraffic_setTraffic, View.traffic_setTraffic, List.take_succ_cons,
          List.map_cons]
        simp only [List.append_assoc, List.cons_append, List.nil_append]
      · -- the others are not even offered
        refine ⟨0, Nat.zero_le _, ?_⟩
        have hrun : (forward owner target (frame :: frames)).run.run s = (.error (.fault fault), s) :=
          run_bind_of_error (run_step_of_error Stop.fault (s := s) hhand) _
        rw [Leaves, hrun, List.take_zero, List.map_nil, List.append_nil]
        exact ⟨(View.setTraffic_self ..).symm, rfl, fun _ => hroom⟩

section SendAll

variable {shard : Nat} {session : Session} {frame : Bytes} {x : Exchange}

theorem run_sendAll_of_ok (h : s.exchange.sendTo session frame = (.ok (), x))
    (frames : List Bytes) : (sendAll shard session (frame :: frames)).run.run s
      = (sendAll shard session frames).run.run { s with exchange := x } := by
  rw [sendAll]
  refine (run_get_bind _ s).trans ?_
  rw [h]
  rfl

/-- The first frame that is refused is counted, and the others are not tried. -/
theorem run_sendAll_of_error {fault : Fault} (h : s.exchange.sendTo session frame = (.error fault, x))
    (frames : List Bytes) : (sendAll shard session (frame :: frames)).run.run s
      = (.error (.fault fault), { s with exchange := x.countDropped shard }) := by
  rw [sendAll]
  refine (run_get_bind _ s).trans ?_
  rw [h]
  rfl

end SendAll

/-- **A message that is written is counted once.** -/
theorem counters?_write (shard : Nat) (session : Session) (frames : List Bytes) (s : Errand) :
    ∃ f : Counters → Counters,
      ((f = fun c => { c with delivered := c.delivered + 1 })
        ∨ f = fun c => { c with dropped := c.dropped + 1 })
      ∧ ((write shard session frames).run.run s).2.exchange.counters?
        = (s.exchange.mapCounters shard f).counters? := by
  have hcongr : ∀ (x y : Exchange) (f : Counters → Counters), x.counters? = y.counters? →
      (x.mapCounters shard f).counters? = (y.mapCounters shard f).counters? := by
    intro x y f h
    funext id
    rw [Exchange.counters?_mapCounters, Exchange.counters?_mapCounters, h]
  -- either every frame is taken, and nothing is counted yet, or one is refused and counted
  have hsend : ∀ frames s, (∃ s', Runs (sendAll shard session frames) s () s'
        ∧ s'.exchange.counters? = s.exchange.counters?) ∨
      ∃ stop s', (sendAll shard session frames).run.run s = (.error stop, s')
        ∧ s'.exchange.counters? = (s.exchange.countDropped shard).counters? := by
    intro frames
    induction frames with
    | nil => exact fun s => Or.inl ⟨s, rfl, rfl⟩
    | cons frame frames ih =>
        intro s
        have hcounters := s.exchange.counters?_sendTo session frame
        cases hsend : s.exchange.sendTo session frame with
        | mk result x =>
            rw [hsend] at hcounters
            cases result with
            | error fault =>
                exact Or.inr ⟨_, _, run_sendAll_of_error hsend frames, hcongr _ _ _ hcounters⟩
            | ok u =>
                have hrun : (sendAll shard session (frame :: frames)).run.run s = _ :=
                  run_sendAll_of_ok hsend frames
                rcases ih { s with exchange := x } with ⟨s', hruns, hs'⟩ | ⟨stop, s', hstop, hs'⟩
                · exact Or.inl ⟨s', hrun.trans hruns, hs'.trans hcounters⟩
                · exact Or.inr ⟨stop, s', hrun.trans hstop, hs'.trans (hcongr _ _ _ hcounters)⟩
  rw [write, run_bind]
  rcases hsend frames s with ⟨s', hruns, hs'⟩ | ⟨stop, s', hstop, hs'⟩
  · rw [show (sendAll shard session frames).run.run s = (.ok (), s') from hruns]
    exact ⟨_, Or.inl rfl, hcongr _ _ _ hs'⟩
  · rw [hstop]
    exact ⟨_, Or.inr rfl, hs'⟩

end Routing

end Switchboard
