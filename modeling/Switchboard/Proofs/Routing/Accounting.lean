import Switchboard.Proofs.Routing.Direct
import Switchboard.Proofs.Routing.Tally

/-!
# Accounting for a message

A message is followed from the shard it comes in at until nothing of it is left. First it is
`Pending`, then `Passing` through the shard of its target, if it is handed over to another one, and
what it adds to the counters is summed up move by move (`Gains`). A message that is not handed over
is counted once, whatever queue refuses it. One that is handed over is counted once for each frame
that the forward queue takes, so not at all if it is full, and more than once if the message is
split (`accounted_of_moves`, `not_accounted`).
-/

namespace Switchboard

namespace Exchange

variable {x : Exchange} {shard : Nat}

/-- A task is queued, or refused and counted. -/
theorem counted_submit (hshard : (x.shard? shard).isSome)
    (hlistening : ∀ s, x.shard? shard = some s → s.work.intake = .listening) (task : Task) :
    ((x.submit shard task).1 = .ok () ∧ Queued shard [task] x (x.submit shard task).2
      ∧ Counted 0 0 x (x.submit shard task).2) ∨
    ((∃ fault, (x.submit shard task).1 = .error fault)
      ∧ Queued shard [] x (x.submit shard task).2 ∧ Counted 1 0 x (x.submit shard task).2) := by
  rcases x.submit_cases shard task with
    ⟨y, hsubmit, hcounters, hview⟩ | ⟨fault, y, hsubmit, hview, hdropped⟩
  · rw [hsubmit]
    exact Or.inl ⟨rfl, queued_of_view hview,
      (Counted.refl x).of_counters? hcounters (congrArg View.offline hview)⟩
  · -- the shard that refuses the task is the one that counts it
    obtain ⟨s, hs⟩ := Option.isSome_iff_exists.1 hshard
    rw [hsubmit]
    refine Or.inr ⟨⟨fault, rfl⟩, queued_nothing shard hview, ?_⟩
    rw [hdropped s hs (hlistening s hs)]
    exact counted_dropped hshard

/-- A frame that was handed over is queued, or refused and counted. -/
theorem counted_enqueue (hshard : (x.shard? shard).isSome)
    (hlistening : ∀ s, x.shard? shard = some s → s.work.intake = .listening) (raw : Bytes)
    (target : String) :
    (∃ e, Envelope.decode raw = .ok e ∧
      Queued shard [{ envelope := e, raw, origin := .forwarded target }] x
        (x.enqueue shard raw (some target)).2 ∧
      Counted 0 0 x (x.enqueue shard raw (some target)).2) ∨
    (Queued shard [] x (x.enqueue shard raw (some target)).2 ∧
      Counted 1 0 x (x.enqueue shard raw (some target)).2) := by
  rw [enqueue]
  cases hdecode : Envelope.decode raw with
  | error fault =>
      -- octets that are no envelope are dropped
      exact Or.inr ⟨queued_nothing shard (view_mapCounters _ _ _), counted_dropped hshard⟩
  | ok e =>
      rcases counted_submit hshard hlistening
          { envelope := e, raw, origin := .forwarded target } with
        ⟨-, hqueued, hcounted⟩ | ⟨-, hqueued, hcounted⟩
      · exact Or.inl ⟨e, rfl, hqueued, hcounted⟩
      · exact Or.inr ⟨hqueued, hcounted⟩

/-- A frame that is drawn from a forward queue has not come to its end. -/
theorem counted_draw (x : Exchange) (shard : Nat) : Counted 0 0 x (x.draw shard) := by
  rw [draw]
  cases hs : x.shard? shard with
  | none => exact Counted.refl x
  | some s =>
      dsimp only
      split
      · rename_i forward _
        have hsame : Counted 0 0 x (x.mapShard shard fun s => { s with forward }) := by
          refine (Counted.refl x).of_counters? (counters?_mapShard_of_same ?_ x shard) rfl
          exact fun _ => rfl
        refine hsame.after (counted_mapCounters (fun _ => rfl) (fun _ => rfl) ?_)
        exact hsame.isSome_shard? (by rw [hs]; rfl)
      · exact Counted.refl x

/-- Nor has a task that is put down to be routed. -/
theorem counted_putDown (x : Exchange) (shard slot : Nat) :
    Counted 0 0 x (x.putDown shard slot) := by
  refine (Counted.refl x).of_counters? (counters?_mapShard_of_same ?_ x shard) rfl
  exact fun _ => rfl

/-- What is done to a shard does not keep it from serving, if its work queue stays open and the
limits stay as they are. -/
theorem Serving.mapShard {e : Envelope} {f : Shard → Shard} (h : x.Serving e)
    (hlistening : ∀ s, (f s).work.intake = s.work.intake)
    (hlimits : ∀ s, (f s).assembler.limits = s.assembler.limits) (shard : Nat) :
    (x.mapShard shard f).Serving e where
  off := h.off
  well := h.well
  person := h.person
  listening id s hs := by
    rw [shard?_mapShard] at hs
    split at hs
    · obtain ⟨t, ht, rfl⟩ := Option.map_eq_some_iff.1 hs
      exact (hlistening t).trans (h.listening id t ht)
    · exact h.listening id s hs
  limits id s hs := by
    rw [shard?_mapShard] at hs
    split at hs
    · obtain ⟨t, ht, rfl⟩ := Option.map_eq_some_iff.1 hs
      exact (hlimits t).trans (h.limits id t ht)
    · exact h.limits id s hs
  splits := h.splits

theorem Serving.putDown {e : Envelope} (h : x.Serving e) (shard slot : Nat) :
    (x.putDown shard slot).Serving e := by
  refine h.mapShard ?_ ?_ shard
  · exact fun _ => rfl
  · exact fun _ => rfl

theorem Serving.draw {e : Envelope} (h : x.Serving e) (shard : Nat) :
    (x.draw shard).Serving e := by
  rw [Exchange.draw]
  split
  · exact h
  · split
    · rename_i forward _
      have hforward : (x.mapShard shard fun s => { s with forward }).Serving e := by
        refine h.mapShard ?_ ?_ shard
        · exact fun _ => rfl
        · exact fun _ => rfl
      refine hforward.mapShard ?_ ?_ shard
      · exact fun _ => rfl
      · exact fun _ => rfl
    · exact h

/-- For a message that fits a frame, all that is asked of the shards can be read off their list. -/
theorem serving_of_shards {e : Envelope} {n : Nat} (hoff : x.services.publishing = .off)
    (hwell : x.services.outages = []) (hperson : x.services.isAssistant e.recipient = false)
    (hintake : x.pool.shards.map (·.work.intake) = List.replicate n .listening)
    (hlimits : x.pool.shards.map (·.assembler.limits)
      = List.replicate n x.config.fragment.limits)
    (hfits : e.isOversized x.config.fragment.limits = false) : x.Serving e where
  off := hoff
  well := hwell
  person := hperson
  listening id s hs := by
    have hmem := List.mem_map_of_mem (f := (·.work.intake)) (List.mem_of_getElem? hs)
    rw [hintake] at hmem
    exact List.eq_of_mem_replicate hmem
  limits id s hs := by
    have hmem := List.mem_map_of_mem (f := (·.assembler.limits)) (List.mem_of_getElem? hs)
    rw [hlimits] at hmem
    exact List.eq_of_mem_replicate hmem
  splits h := absurd (h.symm.trans hfits) Bool.false_ne_true.symm

/-- Where something is on its way there is a shard. -/
theorem isSome_shard?_of_traffic (h : x.traffic shard ≠ {}) : (x.shard? shard).isSome := by
  cases hs : x.shard? shard with
  | none => exact absurd (traffic_of_none hs) h
  | some s => rfl

end Exchange

/-- Nothing that is followed is left at a shard. -/
def Trail.Clear (t : Trail) : Prop := followed t.tasks = [] ∧ followed t.forward = []

theorem Trail.Clear.spares {t t' : Trail} (h : t.Clear) (hspares : t.Spares t') : t'.Clear :=
  ⟨hspares.tasks.trans h.1, hspares.forward.trans h.2⟩

namespace Pursuit

open Trail Exchange

variable {w : Pursuit} {m : Move} {moves : List Move} {n n' kept kept' : Nat}

/-- What a move adds to a measure, if it handles the first message that is followed. -/
def gain (measure : Exchange → Nat) (w : Pursuit) (m : Move) : Int :=
  if w.label m = some 0 then (measure (w.result m) : Int) - measure w.exchange else 0

def gains (measure : Exchange → Nat) : Pursuit → List Move → Int
  | _, [] => 0
  | w, m :: moves => gain measure w m + gains measure (w.move m) moves

/-- What a move adds to the messages that came to an end, and to those that were kept, each as one
record. -/
structure Gain (w : Pursuit) (m : Move) (settled kept : Nat) : Prop where
  settled : gain Exchange.settled w m = settled
  persisted : gain Exchange.persisted w m = kept
  records : gain Exchange.records w m = kept

structure Gains (w : Pursuit) (moves : List Move) (settled kept : Nat) : Prop where
  settled : gains Exchange.settled w moves = settled
  persisted : gains Exchange.persisted w moves = kept
  records : gains Exchange.records w moves = kept

/-- What the first move adds and what the others add is what all of them add. -/
theorem Gains.cons (h : Gain w m n kept) (h' : Gains (w.move m) moves n' kept') :
    Gains w (m :: moves) (n + n') (kept + kept') where
  settled := by rw [gains, h.settled, h'.settled, Int.natCast_add]
  persisted := by rw [gains, h.persisted, h'.persisted, Int.natCast_add]
  records := by rw [gains, h.records, h'.records, Int.natCast_add]

theorem Gains.skip (h : Gain w m 0 0) (h' : Gains (w.move m) moves n kept) :
    Gains w (m :: moves) n kept := by
  have hall := Gains.cons h h'
  rwa [Nat.zero_add, Nat.zero_add] at hall

/-- A move that does not handle the message adds nothing for it. -/
theorem gain_of_none (h : w.label m = none) : Gain w m 0 0 := by
  have hnot : ¬ w.label m = some 0 := by
    rw [h]
    exact (Option.some_ne_none 0).symm
  exact ⟨if_neg hnot, if_neg hnot, if_neg hnot⟩

/-- A move that handles the message adds what is counted in the course of it. -/
theorem gain_of_counted (hlabel : w.label m = some 0)
    (h : Counted n kept w.exchange (w.result m)) : Gain w m n kept where
  settled := by
    rw [gain, if_pos hlabel, h.settled]
    omega
  persisted := by
    rw [gain, if_pos hlabel, h.persisted]
    omega
  records := by
    rw [gain, if_pos hlabel, h.records]
    omega

theorem Goes.mono {P Q : Exchange → Prop} (hPQ : ∀ x, P x → Q x) (h : w.Goes P moves) :
    w.Goes Q moves := by
  induction moves generalizing w with
  | nil => exact hPQ _ h
  | cons m moves ih => exact ⟨hPQ _ h.1, h.2.1, ih h.2.2⟩

/-! ## Nothing left -/

/-- There is nothing where there is no shard. -/
theorem clear_of_size (hw : w.Faithful) {n : Nat} (hsize : w.exchange.pool.shards.length = n)
    (h : ∀ id < n, (w.trail id).Clear) (id : Nat) : (w.trail id).Clear := by
  by_cases hid : id < n
  · exact h id hid
  · have hnone : w.exchange.shard? id = none := by
      rw [← hsize, ← isSome_shard?_iff] at hid
      exact Option.not_isSome_iff_eq_none.1 hid
    -- without a shard nothing waits, so no trail has anything either
    have htraffic := (hw.traffic id).trans (traffic_of_none hnone)
    have hwork := congrArg Traffic.work htraffic
    have hforward := congrArg Traffic.forward htraffic
    have hinHand := congrArg Traffic.inHand htraffic
    rw [Trail.Clear, tasks, List.map_eq_nil_iff.1 hwork, List.map_eq_nil_iff.1 hforward,
      List.map_eq_nil_iff.1 hinHand]
    exact ⟨rfl, rfl⟩

theorem mem_forward {shard : Nat} {handover : Handover} {rest : List (Option Nat × Handover)}
    (h : (w.trail shard).forward = (some n, handover) :: rest) :
    (n, handover) ∈ followed (w.trail shard).forward := by
  rw [h, followed_cons_some]
  exact List.mem_cons_self

theorem mem_tasks {shard slot : Nat} {task : Task}
    (h : (w.trail shard).inHand[slot]? = some (some n, task)) :
    (n, task) ∈ followed (w.trail shard).tasks :=
  mem_followed (List.mem_append_left _ (List.mem_of_getElem? h))

/-- Where nothing that is followed is left, no move can handle any of it. -/
theorem label_of_clear (h : ∀ id, (w.trail id).Clear) (hhand : m.isHand = false) :
    w.label m = none := by
  cases hlabel : w.label m with
  | none => rfl
  | some n =>
      -- a label is on something that is followed: a frame that waits, or a task in hand
      rcases label_cases hlabel with
        hhand' | ⟨shard, handover, rest, rfl, hforward⟩ | ⟨shard, slot, task, rfl, hslot⟩
      · exact absurd (hhand.symm.trans hhand') Bool.false_ne_true
      · have hmem := mem_forward hforward
        rw [(h shard).2] at hmem
        exact absurd hmem List.not_mem_nil
      · have hmem := mem_tasks hslot
        rw [(h shard).1] at hmem
        exact absurd hmem List.not_mem_nil

/-- **Once nothing of a message is left, nothing is counted for it any more.** -/
theorem gains_of_clear {P : Exchange → Prop} (hw : w.Faithful) (hgoes : w.Goes P moves)
    (hothers : ∀ m ∈ moves, m.isHand = false) (h : ∀ id, (w.trail id).Clear) :
    Gains w moves 0 0 := by
  induction moves generalizing w with
  | nil => exact ⟨rfl, rfl, rfl⟩
  | cons m moves ih =>
      obtain ⟨-, hpossible, hgoes⟩ := hgoes
      have hlabel := label_of_clear h (hothers m List.mem_cons_self)
      have hspares := spares_move hw hpossible hlabel
      have hclear : ∀ id, ((w.move m).trail id).Clear := fun id => (h id).spares (hspares id)
      exact Gains.cons (gain_of_none hlabel) (ih (faithful_move hw hpossible) hgoes
        (fun m' hm' => hothers m' (List.mem_cons_of_mem m hm')) hclear)

/-! ## Frames that were handed over -/

/-- Messages that are neither fragments nor call signals. -/
def Whole (frames : List Bytes) : Prop :=
  ∀ frame ∈ frames, ∀ e, Envelope.decode frame = .ok e →
    e.isFragment = false ∧ e.contentKind.isCallSignal = false

/-- What is left of a message that was handed over: so many frames of it, which wait at the shard of
its target. -/
structure Passing (owner : Nat) (target : String) (frames : List Bytes) (left : Nat)
    (w : Pursuit) : Prop where
  clear : ∀ id, id ≠ owner → (w.trail id).Clear
  tasks : ∀ n task, (n, task) ∈ followed (w.trail owner).tasks →
    n = 0 ∧ task.origin = .forwarded target ∧ task.raw ∈ frames ∧
      Envelope.decode task.raw = .ok task.envelope
  forward : ∀ n handover, (n, handover) ∈ followed (w.trail owner).forward →
    n = 0 ∧ handover.target = target ∧ handover.frame ∈ frames
  left : (followed (w.trail owner).tasks).length + (followed (w.trail owner).forward).length = left

variable {home owner left slot : Nat} {target : String} {frames : List Bytes} {e : Envelope}
  {raw : Bytes}

/-- A move that does not handle the frames leaves them where they are. -/
theorem passing_of_label (hw : w.Faithful) (hm : w.Possible m) (hlabel : w.label m = none)
    (h : Passing owner target frames left w) : Passing owner target frames left (w.move m) := by
  have hspares := spares_move hw hm hlabel
  refine ⟨fun id hid => (h.clear id hid).spares (hspares id), ?_, ?_, ?_⟩
  · rw [(hspares owner).tasks]
    exact h.tasks
  · rw [(hspares owner).forward]
    exact h.forward
  · rw [(hspares owner).tasks, (hspares owner).forward]
    exact h.left

/-- What comes of a frame that was picked up waits at the same shard. -/
theorem passing_of_lift (tasks : List Task) (h : Passing owner target frames left w)
    (hlift : ∀ id, id ≠ owner → w.lift m id = w.trail id)
    (htrail : ∀ id, (w.move m).trail id
      = (w.lift m id).add (some 0) (if id = owner then tasks else []) [])
    (htasks : ∀ task ∈ tasks, task.origin = .forwarded target ∧ task.raw ∈ frames ∧
      Envelope.decode task.raw = .ok task.envelope) :
    Passing owner target frames ((followed (w.lift m owner).tasks).length + tasks.length
      + (followed (w.lift m owner).forward).length) (w.move m) := by
  obtain ⟨hsubTasks, hsubForward⟩ := w.followed_lift_sublist m owner
  have hnewTasks : followed ((w.move m).trail owner).tasks
      = followed (w.lift m owner).tasks ++ tasks.map (Prod.mk 0) := by
    rw [htrail, if_pos rfl, followed_tasks_add]
  have hnewForward : followed ((w.move m).trail owner).forward
      = followed (w.lift m owner).forward := by
    rw [htrail, followed_forward_add, List.map_nil, List.append_nil]
  -- what was picked up came from the same shard, so the other shards are as they were
  refine ⟨fun id hid => ?_, fun n task hmem => ?_, fun n handover hmem => ?_, ?_⟩
  · rw [Clear, htrail, if_neg hid, add_nil, hlift id hid]
    exact h.clear id hid
  · rw [hnewTasks] at hmem
    rcases List.mem_append.1 hmem with hmem | hmem
    · exact h.tasks n task (hsubTasks.subset hmem)
    · obtain ⟨_, htask, heq⟩ := List.mem_map.1 hmem
      cases heq
      exact ⟨rfl, htasks task htask⟩
  · rw [hnewForward] at hmem
    exact h.forward n handover (hsubForward.subset hmem)
  · rw [hnewTasks, hnewForward, List.length_append, List.length_map]

/-- A frame that is relayed is queued for its target, or is refused and counted. -/
theorem passing_relay (hw : w.Faithful) (hserving : w.exchange.Serving e) {shard : Nat}
    {handover : Handover} {rest : List (Option Nat × Handover)}
    (hforward : (w.trail shard).forward = (some n, handover) :: rest)
    (h : Passing owner target frames left w) : ∃ n' left',
      Gain w (.act (.relay shard)) n' 0 ∧
      Passing owner target frames left' (w.move (.act (.relay shard))) ∧ n' + left' = left := by
  have hmem := mem_forward hforward
  -- nothing that is followed waits anywhere else
  obtain rfl : shard = owner := by
    by_contra hne
    rw [(h.clear shard hne).2] at hmem
    exact List.not_mem_nil hmem
  obtain ⟨rfl, rfl, hframe⟩ := h.forward n handover hmem
  have hlabel := label_relay hforward
  have hwaits := forward_of_trail hw hforward
  have hshard : (w.exchange.shard? shard).isSome := isSome_shard?_of_traffic fun hnone => by
    rw [hnone] at hwaits
    exact List.cons_ne_nil _ _ hwaits.symm
  have hdrawn := counted_draw w.exchange shard
  have hresult : w.result (.act (.relay shard)) = ((w.exchange.draw shard).enqueue shard
      handover.frame (some handover.target)).2 := relay_of_forward hwaits
  have hlift : w.lift (.act (.relay shard)) shard
      = { w.trail shard with forward := (w.trail shard).forward.tail } := by
    rw [lift_relay, if_pos rfl]
  have hleft := h.left
  rw [hforward, followed_cons_some, List.length_cons] at hleft
  -- the frame leaves the forward queue, and so many tasks come of it: one, or none if it is refused
  have hpassing : ∀ tasks : List Task,
      Queued shard tasks (w.exchange.draw shard) (w.result (.act (.relay shard))) →
      (∀ task ∈ tasks, task.origin = .forwarded handover.target ∧ task.raw ∈ frames ∧
        Envelope.decode task.raw = .ok task.envelope) →
      Passing shard handover.target frames ((followed (w.trail shard).tasks).length + tasks.length
        + (followed rest).length) (w.move (.act (.relay shard))) := by
    intro tasks hqueued htasks
    have hnew := passing_of_lift tasks h (fun id hid => by rw [lift_relay, if_neg hid])
      (fun id => by rw [trail_of_queued hw hqueued, hlabel]) htasks
    rw [hlift, hforward] at hnew
    exact hnew
  have hlistening := (hserving.draw shard).listening shard
  have hshard' := hdrawn.isSome_shard? hshard
  rcases counted_enqueue hshard' hlistening handover.frame handover.target with
    ⟨e, hdecode, hqueued, hcounted⟩ | ⟨hqueued, hcounted⟩
  · rw [← hresult] at hqueued hcounted
    -- the frame is queued: nothing is counted, and one task more waits
    refine ⟨0, _, gain_of_counted hlabel (hdrawn.after hcounted), hpassing _ hqueued ?_, ?_⟩
    · intro task htask
      obtain rfl := List.mem_singleton.1 htask
      exact ⟨rfl, hframe, hdecode⟩
    · rw [List.length_singleton]
      omega
  · rw [← hresult] at hqueued hcounted
    -- the frame is refused: it is counted, and nothing comes of it
    refine ⟨1, _, gain_of_counted hlabel (hdrawn.after hcounted), hpassing [] hqueued ?_, ?_⟩
    · exact fun _ htask => absurd htask List.not_mem_nil
    · rw [List.length_nil]
      omega

/-- Frames that come to their end one by one: messages, or whatever is for somebody who is at a
shard. -/
def Single (owner : Nat) (target : String) (frames : List Bytes) (x : Exchange) : Prop :=
  Whole frames ∨ (x.holder? owner target).isSome

/-- A frame that is routed comes to its end, unless it is one fragment of several. -/
theorem passing_finish (hw : w.Faithful) (hserving : w.exchange.Serving e) {shard : Nat}
    {task : Task} (hslot : (w.trail shard).inHand[slot]? = some (some n, task))
    (h : Passing owner target frames left w) : ∃ n' ≤ 1, ∃ left' kept,
      Gain w (.act (.finish shard slot)) n' kept ∧
      Passing owner target frames left' (w.move (.act (.finish shard slot))) ∧
      1 + left' = left ∧ (Single owner target frames w.exchange → n' = 1) := by
  have hmem := mem_tasks hslot
  obtain rfl : shard = owner := by
    by_contra hne
    rw [(h.clear shard hne).1] at hmem
    exact List.not_mem_nil hmem
  obtain ⟨envelope, raw, origin⟩ := task
  obtain ⟨rfl, rfl, hframe, hdecode⟩ := h.tasks n _ hmem
  have hlabel := label_finish hslot
  have hinHand := inHand_of_trail hw hslot
  have hdown := counted_putDown w.exchange shard slot
  obtain ⟨htraffic, n', hn', kept, hcounted, hexact⟩ :=
    concluded_forwarded (x := w.exchange.putDown shard slot) hw.keyed hserving.well
      (isSome_shard?_putDown hinHand) target envelope raw
  have hresult := finish_eq_routeTask hinHand
  rw [← hresult] at htraffic hcounted
  have hlift : ∀ id, w.lift (.act (.finish shard slot)) id
      = if id = shard then (w.trail id).putDown slot else w.trail id := lift_finish w shard slot
  have htrail : ∀ id, (w.move (.act (.finish shard slot))).trail id
      = (w.lift (.act (.finish shard slot)) id).add (some 0)
        (if id = shard then [] else []) [] := by
    intro id
    rw [ite_self, add_nil]
    exact trail_of_traffic hw (htraffic id)
  have hpassing := passing_of_lift [] h (fun id hid => by rw [hlift, if_neg hid]) htrail
    (fun _ htask => absurd htask List.not_mem_nil)
  refine ⟨n', hn', _, kept, gain_of_counted hlabel (hdown.after hcounted), hpassing, ?_, ?_⟩
  · -- the task is gone, and it was one of those that were left
    have hleft := h.left
    rw [(followed_putDown_perm hslot).length_eq, List.length_cons] at hleft
    have hsame : ((w.trail shard).putDown slot).forward = (w.trail shard).forward := rfl
    rw [hlift, if_pos rfl, List.length_nil, hsame]
    omega
  · intro hsingle
    refine hexact (hsingle.imp (fun hwhole => hwhole raw hframe envelope hdecode) fun hheld => ?_)
    rw [holder?_putDown]
    exact hheld

/-- **Frames that were handed over** come to their end one by one, unless they are fragments. -/
theorem passing_move (hw : w.Faithful) (hm : w.Possible m) (hhand : m.isHand = false)
    (hserving : w.exchange.Serving e) (h : Passing owner target frames left w) :
    ∃ n kept left', Gain w m n kept ∧ Passing owner target frames left' (w.move m) ∧
      n + left' ≤ left ∧ (Single owner target frames w.exchange → n + left' = left) := by
  cases hlabel : w.label m with
  | none =>
      exact ⟨0, 0, left, gain_of_none hlabel, passing_of_label hw hm hlabel h, by omega,
        fun _ => Nat.zero_add left⟩
  | some n =>
      rcases label_cases hlabel with
        hhand' | ⟨shard, handover, rest, rfl, hforward⟩ | ⟨shard, slot, task, rfl, hslot⟩
      · exact absurd (hhand.symm.trans hhand') Bool.false_ne_true
      · obtain ⟨n', left', hgain, hpassing, hleft⟩ := passing_relay hw hserving hforward h
        exact ⟨n', 0, left', hgain, hpassing, Nat.le_of_eq hleft, fun _ => hleft⟩
      · obtain ⟨n', hn', left', kept, hgain, hpassing, hleft, hexact⟩ :=
          passing_finish hw hserving hslot h
        refine ⟨n', kept, left', hgain, hpassing, by omega, fun hsingle => ?_⟩
        rw [hexact hsingle]
        exact hleft

/-- **All frames that were handed over come to their end**, or fewer if they are fragments and their
target leaves. -/
theorem passing_after (hw : w.Faithful) (hgoes : w.Goes (Exchange.Serving e) moves)
    (hothers : ∀ m ∈ moves, m.isHand = false) (hclear : ∀ id, ((w.after moves).trail id).Clear)
    (h : Passing owner target frames left w) :
    ∃ n ≤ left, ∃ kept, Gains w moves n kept ∧
      (w.Goes (Single owner target frames) moves → n = left) := by
  -- on the moves: what is left after the first one comes to its end in the others
  induction moves generalizing w left with
  | nil =>
      -- the trails are clear in the end, so nothing may be left
      obtain ⟨htasks, hforward⟩ : (w.trail owner).Clear := hclear owner
      have hleft := h.left
      rw [htasks, hforward] at hleft
      exact ⟨0, Nat.zero_le _, 0, ⟨rfl, rfl, rfl⟩, fun _ => hleft⟩
  | cons m moves ih =>
      obtain ⟨hserving, hpossible, hgoes⟩ := hgoes
      obtain ⟨n, kept, left', hgain, hpassing, hle, hexact⟩ :=
        passing_move hw hpossible (hothers m List.mem_cons_self) hserving h
      obtain ⟨n', hn', kept', hgains, hexact'⟩ := ih (faithful_move hw hpossible) hgoes
        (fun m' hm' => hothers m' (List.mem_cons_of_mem m hm')) hclear hpassing
      refine ⟨n + n', by omega, kept + kept', .cons hgain hgains, fun hsingle => ?_⟩
      obtain ⟨hsingle, -, hsingles⟩ := hsingle
      rw [hexact' hsingles]
      exact hexact hsingle

/-! ## A message that waits to be routed -/

/-- A message that came in at a shard waits there to be routed, once. -/
structure Pending (home : Nat) (e : Envelope) (raw : Bytes) (w : Pursuit) : Prop where
  clear : ∀ id, id ≠ home → (w.trail id).Clear
  tasks : followed (w.trail home).tasks = [(0, { envelope := e, raw, origin := .inbound })]
  forward : followed (w.trail home).forward = []

/-- A move hands the first frames of a message over to the shard that its target is at: all of them,
unless there is no room for the next one. -/
structure HandsOver (home owner : Nat) (e : Envelope) (raw : Bytes) (took : Nat) (w : Pursuit)
    (m : Move) : Prop where
  label : w.label m = some 0
  elsewhere : (w.lifted m).whereabouts home e.recipient = .elsewhere owner
  bound : took ≤ ((w.lifted m).frames e raw).length
  handed : Handed owner e.recipient (((w.lifted m).frames e raw).take took) (w.lifted m)
    (w.result m)
  room : took < ((w.lifted m).frames e raw).length → ¬ (w.result m).view.CanForward owner 1

/-- Frames that are handed over are all that is left of a message. -/
theorem passing_of_handed (hw : w.Faithful) (hlabel : w.label m = some 0)
    (hclear : ∀ id, (w.lift m id).Clear)
    (h : Handed owner target frames (w.lifted m) (w.result m)) :
    Passing owner target frames frames.length (w.move m) := by
  have htrail : ∀ id, (w.move m).trail id = (w.lift m id).add (some 0) []
      (if id = owner then frames.map (Handover.mk target) else []) := by
    intro id
    rw [← hlabel]
    refine trail_move hw [] _ ?_ (h.forward id)
    rw [List.append_nil]
    exact h.work id
  have htasks : followed ((w.move m).trail owner).tasks = [] := by
    rw [htrail, followed_tasks_add, (hclear owner).1]
    rfl
  have hforward : followed ((w.move m).trail owner).forward
      = (frames.map (Handover.mk target)).map (Prod.mk 0) := by
    rw [htrail, if_pos rfl, followed_forward_add, (hclear owner).2, List.nil_append]
  -- the frames came to the end of one forward queue, and no task came with them
  refine ⟨fun id hid => ?_, ?_, ?_, ?_⟩
  · rw [htrail, if_neg hid, add_nil]
    exact hclear id
  · rw [htasks]
    exact fun _ _ hmem => absurd hmem List.not_mem_nil
  · rw [hforward]
    intro n handover hmem
    obtain ⟨_, hhandover, heq⟩ := List.mem_map.1 hmem
    cases heq
    obtain ⟨frame, hframe, rfl⟩ := List.mem_map.1 hhandover
    exact ⟨rfl, rfl, hframe⟩
  · rw [htasks, hforward, List.length_nil, List.length_map, List.length_map, Nat.zero_add]

/-- A message that is put down to be routed is left nowhere. -/
theorem clear_of_pending {shard : Nat} {task : Task}
    (hslot : (w.trail shard).inHand[slot]? = some (some n, task)) (h : Pending home e raw w)
    (id : Nat) : (w.lift (.act (.finish shard slot)) id).Clear ∧ shard = home ∧ n = 0 ∧
      task = { envelope := e, raw, origin := .inbound } := by
  have hmem := mem_tasks hslot
  obtain rfl : shard = home := by
    by_contra hne
    rw [(h.clear shard hne).1] at hmem
    exact List.not_mem_nil hmem
  rw [h.tasks, List.mem_singleton] at hmem
  cases hmem
  refine ⟨?_, rfl, rfl, rfl⟩
  rw [lift_finish]
  split
  · rename_i hid
    -- the message was the only thing that was followed, and it is put down
    have hperm := followed_putDown_perm hslot
    rw [h.tasks] at hperm
    rw [hid]
    exact ⟨List.nil_perm.1 hperm.cons_inv, h.forward⟩
  · rename_i hid
    exact h.clear id hid

/-- **A message that is routed** comes to its end, or is handed over. -/
theorem pending_finish (hw : w.Faithful) (hserving : w.exchange.Serving e) (he : e.Letter)
    {shard : Nat} {task : Task}
    (hslot : (w.trail shard).inHand[slot]? = some (some n, task)) (h : Pending home e raw w) :
    let m := Move.act (.finish shard slot)
    (∃ kept, Gain w m 1 kept ∧ ∀ id, ((w.move m).trail id).Clear) ∨
    ∃ owner took, HandsOver home owner e raw took w m ∧ Gain w m 0 0 ∧
      Passing owner e.recipient (((w.lifted m).frames e raw).take took) took (w.move m) := by
  intro m
  have hclear := fun id => (clear_of_pending hslot h id).1
  obtain ⟨-, rfl, rfl, rfl⟩ := clear_of_pending hslot h home
  have hlabel : w.label m = some 0 := label_finish hslot
  have hinHand := inHand_of_trail hw hslot
  have hdown := counted_putDown w.exchange shard slot
  have hfares := fares_inbound (x := w.exchange.putDown shard slot) hw.keyed
    (hserving.putDown shard slot) he (isSome_shard?_putDown hinHand) raw
  rw [← finish_eq_routeTask hinHand] at hfares
  cases hfares with
  | settled htraffic hcounted =>
      exact Or.inl ⟨_, gain_of_counted hlabel (hdown.after hcounted),
        fun id => by rw [trail_of_traffic hw (m := m) (htraffic id)]; exact hclear id⟩
  | handed hwhere hk hroom hhanded hcounted =>
      have hpassing := passing_of_handed (m := m) hw hlabel hclear hhanded
      rw [List.length_take, Nat.min_eq_left hk] at hpassing
      exact Or.inr ⟨_, _, ⟨hlabel, hwhere, hk, hhanded, hroom⟩,
        gain_of_counted hlabel (hdown.after hcounted), hpassing⟩

/-- A message that waits to be routed goes on waiting until it is routed. -/
theorem pending_move (hw : w.Faithful) (hm : w.Possible m) (hhand : m.isHand = false)
    (hserving : w.exchange.Serving e) (he : e.Letter) (h : Pending home e raw w) :
    (Gain w m 0 0 ∧ Pending home e raw (w.move m)) ∨
    (∃ kept, Gain w m 1 kept ∧ ∀ id, ((w.move m).trail id).Clear) ∨
    ∃ owner took, HandsOver home owner e raw took w m ∧ Gain w m 0 0 ∧
      Passing owner e.recipient (((w.lifted m).frames e raw).take took) took (w.move m) := by
  cases hlabel : w.label m with
  | none =>
      have hspares := spares_move hw hm hlabel
      exact Or.inl ⟨gain_of_none hlabel, fun id hid => (h.clear id hid).spares (hspares id),
        (hspares home).tasks.trans h.tasks, (hspares home).forward.trans h.forward⟩
  | some n =>
      rcases label_cases hlabel with
        hhand' | ⟨shard, handover, rest, rfl, hforward⟩ | ⟨shard, slot, task, rfl, hslot⟩
      · exact absurd (hhand.symm.trans hhand') Bool.false_ne_true
      · -- no frame of the message waits anywhere, so none is relayed
        have hmem := mem_forward hforward
        have hnone : followed (w.trail shard).forward = [] := by
          by_cases hid : shard = home
          · rw [hid]
            exact h.forward
          · exact (h.clear shard hid).2
        rw [hnone] at hmem
        exact absurd hmem List.not_mem_nil
      · exact Or.inr (pending_finish hw hserving he hslot h)

/-- One of some moves hands a message over, and so many of it come to their end: all frames that
were taken, or fewer if they are fragments and their target leaves. -/
def HandedOver (home : Nat) (e : Envelope) (raw : Bytes) (moves : List Move) (settled : Nat)
    (w : Pursuit) : Prop :=
  ∃ before m after owner took, moves = before ++ m :: after ∧
    HandsOver home owner e raw took (w.after before) m ∧ settled ≤ took ∧
    (e.isOversized w.exchange.config.fragment.limits = false → settled = took) ∧
    (((w.after before).move m).Goes (fun x => (x.holder? owner e.recipient).isSome) after →
      settled = took)

theorem HandedOver.cons (hconfig : (w.move m).exchange.config = w.exchange.config)
    (h : HandedOver home e raw moves n (w.move m)) : HandedOver home e raw (m :: moves) n w := by
  obtain ⟨before, m', after, owner, took, rfl, hhands, hle, hfits, hstays⟩ := h
  rw [hconfig] at hfits
  exact ⟨m :: before, m', after, owner, took, rfl, hhands, hle, hfits, hstays⟩

/-- A message that is not split goes out as it is. -/
theorem whole_frames {x : Exchange} (he : e.Letter) (hdecode : Envelope.decode raw = .ok e)
    (hfits : e.isOversized x.config.fragment.limits = false) (took : Nat) :
    Whole ((x.frames e raw).take took) := by
  intro frame hmem e' hdecode'
  have hframe := List.mem_of_mem_take hmem
  rw [Exchange.frames, Envelope.frames, if_neg (by rw [hfits]; exact Bool.false_ne_true)] at hframe
  obtain rfl := List.mem_singleton.1 hframe
  obtain rfl := Except.ok.inj (hdecode.symm.trans hdecode')
  exact ⟨he.whole, he.signal⟩

/-- **A message that waits to be routed** comes to its end, or is handed over. -/
theorem pending_after (hw : w.Faithful) (hgoes : w.Goes (Exchange.Serving e) moves)
    (hothers : ∀ m ∈ moves, m.isHand = false) (hclear : ∀ id, ((w.after moves).trail id).Clear)
    (he : e.Letter) (hdecode : Envelope.decode raw = .ok e) (h : Pending home e raw w) :
    ∃ n kept, Gains w moves n kept ∧ (n = 1 ∨ HandedOver home e raw moves n w) := by
  induction moves generalizing w with
  | nil =>
      -- the message would still wait though the trails are clear
      have htasks : followed (w.trail home).tasks = [] := (hclear home).1
      rw [h.tasks] at htasks
      exact absurd htasks (List.cons_ne_nil _ _)
  | cons m moves ih =>
      obtain ⟨hserving, hpossible, hgoes⟩ := hgoes
      have hw' := faithful_move hw hpossible
      have hothers' := fun m' hm' => hothers m' (List.mem_cons_of_mem m hm')
      rcases pending_move hw hpossible (hothers m List.mem_cons_self) hserving he h with
        ⟨hgain, hpending⟩ | ⟨kept, hgain, hnothing⟩ | ⟨owner, took, hhands, hgain, hpassing⟩
      · obtain ⟨n, kept, hgains, hn⟩ := ih hw' hgoes hothers' hclear hpending
        refine ⟨n, kept, .skip hgain hgains, hn.imp_right ?_⟩
        exact HandedOver.cons (config_move hw hpossible)
      · exact ⟨1, kept, .cons hgain (gains_of_clear hw' hgoes hothers' hnothing), Or.inl rfl⟩
      · obtain ⟨n, hn, kept, hgains, hexact⟩ := passing_after hw' hgoes hothers' hclear hpassing
        refine ⟨n, kept, .skip hgain hgains,
          Or.inr ⟨[], m, moves, owner, took, rfl, hhands, hn, fun hfits => hexact ?_,
            fun hstays => hexact (hstays.mono fun _ hheld => Or.inr hheld)⟩⟩
        -- a message that fits goes out as one frame, and that is no fragment
        rw [← config_lifted w m] at hfits
        exact hgoes.mono fun _ _ => Or.inl (whole_frames he hdecode hfits took)

/-- At first nothing is followed. -/
theorem clear_start (x : Exchange) (id : Nat) : ((start x).trail id).Clear :=
  ⟨followed_tasks_unlabelled _, followed_forward_unlabelled _⟩

/-- A message that is taken in waits to be routed, or is refused and counted. -/
theorem pending_hand {x : Exchange} (hkeyed : x.ground.Keyed) (hserving : x.Serving e)
    (hshard : (x.shard? home).isSome) (raw : Bytes) :
    let m := Move.hand home e raw
    (Gain (start x) m 0 0 ∧ Pending home e raw ((start x).move m)) ∨
    (Gain (start x) m 1 0 ∧ ∀ id, (((start x).move m).trail id).Clear) := by
  intro m
  have hw := faithful_start hkeyed
  rcases counted_submit hshard (hserving.listening home)
      { envelope := e, raw, origin := .inbound } with
    ⟨-, hqueued, hcounted⟩ | ⟨-, hqueued, hcounted⟩
  · have htrail := trail_of_queued (m := m) hw hqueued
    refine Or.inl ⟨gain_of_counted rfl hcounted, fun id hid => ?_, ?_, ?_⟩
    · rw [htrail, if_neg hid, add_nil]
      exact clear_start x id
    · rw [htrail, if_pos rfl]
      show followed (((start x).trail home).add (some 0) _ _).tasks = _
      rw [followed_tasks_add, (clear_start x home).1]
      rfl
    · rw [htrail]
      show followed (((start x).trail home).add (some 0) _ _).forward = _
      rw [followed_forward_add, (clear_start x home).2]
      rfl
  · have htrail := trail_of_queued (m := m) hw hqueued
    refine Or.inr ⟨gain_of_counted rfl hcounted, fun id => ?_⟩
    rw [htrail, ite_self, add_nil]
    exact clear_start x id

/-- **A message is counted once, and if it is kept, it is kept as one record**, unless it is handed
over to another shard: then each frame is counted that is taken there, and none that is refused
there. Queues may be full, clients may come and go, and whatever else goes on in the exchange may go
on at the same time. -/
theorem accounted_of_moves {x : Exchange} (hkeyed : x.ground.Keyed)
    (hshard : (x.shard? home).isSome) (he : e.Letter) (hdecode : Envelope.decode raw = .ok e)
    (hgoes : (start x).Goes (Exchange.Serving e) (.hand home e raw :: moves))
    (hothers : ∀ m ∈ moves, m.isHand = false)
    (hclear : ∀ id, (((start x).after (.hand home e raw :: moves)).trail id).Clear) :
    ∃ n kept, Gains (start x) (.hand home e raw :: moves) n kept ∧
      (n = 1 ∨ HandedOver home e raw (.hand home e raw :: moves) n (start x)) := by
  have hw := faithful_start hkeyed
  obtain ⟨hserving, hpossible, hgoes⟩ := hgoes
  have hw' := faithful_move hw hpossible
  rcases pending_hand hkeyed hserving hshard raw with ⟨hgain, hpending⟩ | ⟨hgain, hnothing⟩
  · obtain ⟨n, kept, hgains, hn⟩ := pending_after hw' hgoes hothers hclear he hdecode hpending
    refine ⟨n, kept, .skip hgain hgains, hn.imp_right ?_⟩
    exact HandedOver.cons (config_move hw hpossible)
  · -- it was refused at once
    exact ⟨1, 0, .cons hgain (gains_of_clear hw' hgoes hothers hnothing), Or.inl rfl⟩

/-- A short message to Bob that comes in at the shard that he is not at. -/
def crossing (rest : List Move) : List Move :=
  .hand 1 (fromAnn "bob" .text) (fromAnn "bob" .text).encode :: rest

/-- It is handed over and written. -/
def straight : List Move :=
  [.act (.take 1), .act (.finish 1 0), .act (.relay 0), .act (.take 0), .act (.finish 0 0)]

theorem letter_fromAnn : (fromAnn "bob" .text).Letter := ⟨by decide, rfl, rfl, rfl⟩

theorem accounted_of_moves_straight :
    gains Exchange.settled (start withBob) (crossing straight) = 1 ∧
    ∃ n kept, Gains (start withBob) (crossing straight) n kept ∧ (n = 1 ∨
      HandedOver 1 (fromAnn "bob" .text) (fromAnn "bob" .text).encode (crossing straight) n
        (start withBob)) := by
  have hgoes : (start withBob).Goes (Exchange.Serving (fromAnn "bob" .text))
      (crossing straight) := by
    refine ⟨?_, trivial, ?_, trivial, ?_, trivial, ?_, trivial, ?_, trivial, ?_, trivial, ?_⟩
    all_goals exact serving_of_shards (n := 2) rfl rfl rfl rfl rfl rfl
  refine ⟨rfl, accounted_of_moves keyed_withBob rfl letter_fromAnn (decode_fromAnn rfl .text) hgoes
    (by decide) ?_⟩
  refine clear_of_size (faithful_after (faithful_start keyed_withBob) hgoes) (n := 2) rfl ?_
  intro id hid
  rcases id with _ | _ | id
  · exact ⟨rfl, rfl⟩
  · exact ⟨rfl, rfl⟩
  · omega

/-- Two shards at which one frame may wait that was handed over, with Bob's connection at the first
of them and a message to him at the other. -/
def crowded : Exchange :=
  let config : Config :=
    { pool.initialShards := 2, pool.maxShards := 2, shard.forwardQueueCapacity := 1 }
  let lobby := (Lobby.start (.new config .inMemory 0)).run [.accept "bob" none 8, .register 0]
  (lobby.exchange.enqueueEnvelope 1 (fromAnn "bob" .text) (fromAnn "bob" .text).encode).2

/-- Both messages are handed over before the other shard takes any. -/
def squeezed : List Move :=
  [.act (.take 1), .act (.take 1), .act (.finish 1 0), .act (.finish 1 0), .act (.relay 0),
    .act (.take 0), .act (.finish 0 0)]

/-- A message for which the forward queue has no room is not counted by anybody. -/
theorem not_accounted : (fromAnn "bob" .text).Letter ∧
    (start crowded).Goes (Exchange.Serving (fromAnn "bob" .text)) (crossing squeezed) ∧
    (∀ m ∈ squeezed, m.isHand = false) ∧
    (∀ id, (((start crowded).after (crossing squeezed)).trail id).Clear) ∧
    gains Exchange.settled (start crowded) (crossing squeezed) = 0 := by
  have hkeyed : crowded.ground.Keyed :=
    Exchange.keyed_of_connections (x := withBob) rfl keyed_withBob
  have hgoes : (start crowded).Goes (Exchange.Serving (fromAnn "bob" .text))
      (crossing squeezed) := by
    refine ⟨?_, trivial, ?_, trivial, ?_, trivial, ?_, trivial, ?_, trivial, ?_, trivial, ?_,
      trivial, ?_, trivial, ?_⟩
    all_goals exact serving_of_shards (n := 2) rfl rfl rfl rfl rfl rfl
  refine ⟨letter_fromAnn, hgoes, by decide, ?_, rfl⟩
  refine clear_of_size (faithful_after (faithful_start hkeyed) hgoes) (n := 2) rfl ?_
  intro id hid
  rcases id with _ | _ | id
  · exact ⟨rfl, rfl⟩
  · exact ⟨rfl, rfl⟩
  · omega

end Pursuit

end Switchboard
