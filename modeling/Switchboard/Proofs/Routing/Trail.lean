import Switchboard.Proofs.Routing.Queues

/-!
# Following messages

Among whatever else goes on, a message is followed by a label: the task that it comes in as bears
its number, and so does everything that is queued while a thing with this number is being handled. A
`Pursuit` is an exchange with such labels on everything that waits or is in somebody's hand. Labels
change nothing (`Faithful`): without them, a trail is what waits at the shard.

Between the steps that handle what waits there may be any others, those of sessions and services as
well as of clients that come and go, as long as they respect the queues.
-/

namespace Switchboard

/-- What waits at a shard and what its processors have taken, each with the number of the message it
belongs to, if this is one of those that are followed. -/
@[ext] structure Trail where
  work : List (Option Nat × Task)
  forward : List (Option Nat × Handover)
  inHand : List (Option Nat × Task)

namespace Trail

/-- The trail without labels. -/
def traffic (t : Trail) : Traffic where
  work := t.work.map Prod.snd
  forward := t.forward.map Prod.snd
  inHand := t.inHand.map Prod.snd

/-- The trail of a shard at which nothing is followed. -/
def unlabelled (t : Traffic) : Trail where
  work := t.work.map (Prod.mk none)
  forward := t.forward.map (Prod.mk none)
  inHand := t.inHand.map (Prod.mk none)

/-- What waits now, where everything that was not there before gets a label. -/
def mark {α : Type} (label : Option Nat) (before : List (Option Nat × α)) (now : List α) :
    List (Option Nat × α) :=
  before ++ (now.drop before.length).map (Prod.mk label)

def follow (t : Trail) (label : Option Nat) (now : Traffic) : Trail :=
  { t with work := mark label t.work now.work, forward := mark label t.forward now.forward }

theorem traffic_unlabelled (t : Traffic) : (unlabelled t).traffic = t := by
  simp [traffic, unlabelled, Function.comp_def]

section Mark

variable {α : Type} {label : Option Nat} {before : List (Option Nat × α)} {now more : List α}

/-- Without its labels, what is marked is what waits. -/
theorem map_mark (h : before.map Prod.snd <+: now) : (mark label before now).map Prod.snd = now := by
  obtain ⟨more, rfl⟩ := h
  rw [mark, List.map_append, List.map_map, List.drop_append_of_le_length (by simp),
    List.drop_of_length_le (by simp)]
  simp [Function.comp_def]

/-- Only what was not there before gets the label. -/
theorem mark_append (h : now = before.map Prod.snd ++ more) :
    mark label before now = before ++ more.map (Prod.mk label) := by
  subst h
  rw [mark, List.drop_append_of_le_length (by simp), List.drop_of_length_le (by simp),
    List.nil_append]

end Mark

end Trail

/-- An exchange, labels on what waits in it, and the messages that are followed, in the order in which
they were taken in. -/
structure Pursuit where
  exchange : Exchange
  trail : Nat → Trail
  accepted : List (Envelope × Bytes)

/-- One thing that happens. -/
inductive Pursuit.Move
  /-- A message that is followed is handed to a shard. -/
  | hand (shard : Nat) (e : Envelope) (raw : Bytes)
  | act (action : Action)
  /-- Anything else, with what comes of it. -/
  | other (y : Exchange)

namespace Exchange

/-- The exchange after the coordinator of a shard has taken the oldest frame that was handed over, and
counted it. -/
def draw (x : Exchange) (shard : Nat) : Exchange :=
  match x.shard? shard with
  | none => x
  | some s =>
    match s.forward.take? with
    | some (_, forward) =>
      (x.mapShard shard fun s => { s with forward }).mapCounters shard fun c =>
        { c with forwarded := c.forwarded + 1 }
    | none => x

/-! ## Picking up -/

/-- A free processor has the oldest task in its hand, and a busy one does nothing. -/
theorem traffic_take (x : Exchange) (shard id : Nat) : (x.take shard).traffic id =
    if id = shard ∧ (x.traffic shard).inHand.length < x.processors then
      { x.traffic shard with
        work := (x.traffic shard).work.tail
        inHand := (x.traffic shard).inHand ++ (x.traffic shard).work.head?.toList }
    else x.traffic id := by
  by_cases hfree : (x.traffic shard).inHand.length < x.processors
  · cases hwork : (x.traffic shard).work with
    | nil =>
        rw [take_of_nil hwork]
        split
        · rename_i h
          rw [h.1]
          simp [Traffic.ext_iff, hwork]
        · rfl
    | cons task rest =>
        refine (traffic_of_view (view_take hwork hfree) id).trans ?_
        show (if id = shard then _ else x.traffic id) = _
        by_cases hid : id = shard
        · rw [if_pos hid, if_pos ⟨hid, hfree⟩]
          rfl
        · rw [if_neg hid, if_neg fun h => hid h.1]
  · rw [take_of_busy hfree, if_neg fun h => hfree h.2]

/-- The task is gone from its slot. -/
theorem traffic_putDown (x : Exchange) (shard slot id : Nat) : (x.putDown shard slot).traffic id =
    if id = shard then
      { x.traffic shard with inHand := (x.traffic shard).inHand.eraseIdx slot }
    else x.traffic id := by
  rw [putDown, traffic_mapShard]
  by_cases hid : id = shard
  · rw [if_pos hid, if_pos hid, hid]
    cases hs : x.shard? shard with
    | none =>
        have hnone : x.traffic shard = {} := traffic_of_none hs
        rw [hnone]
        rfl
    | some s =>
        have htraffic : x.traffic shard = s.traffic := traffic_of_shard? hs
        rw [htraffic]
        rfl
  · rw [if_neg hid, if_neg hid]

theorem traffic_mapCounters (x : Exchange) (shard : Nat) (f : Counters → Counters) (id : Nat) :
    (x.mapCounters shard f).traffic id = x.traffic id :=
  congrFun (congrArg View.traffic (view_mapCounters x shard f)) id

/-- The oldest of the frames that were handed over is gone. -/
theorem traffic_draw (x : Exchange) (shard id : Nat) : (x.draw shard).traffic id =
    if id = shard then { x.traffic shard with forward := (x.traffic shard).forward.tail }
    else x.traffic id := by
  cases hs : x.shard? shard with
  | none =>
      have hnone : x.traffic shard = {} := traffic_of_none hs
      rw [draw, hs, hnone]
      dsimp only
      split
      · rename_i hid
        rw [hid]
        exact hnone
      · rfl
  | some s =>
      have htraffic : x.traffic shard = s.traffic := traffic_of_shard? hs
      rw [draw, hs, htraffic]
      dsimp only
      cases hforward : s.forward.items with
      | nil =>
          have hnil : s.traffic.forward = [] := hforward
          rw [Queue.take?_of_nil hforward, hnil]
          dsimp only
          split
          · rename_i hid
            rw [hid, List.tail_nil, ← hnil]
            exact htraffic
          · rfl
      | cons handover rest =>
          obtain ⟨forward, htake, hrest, -⟩ := Queue.take?_of_cons hforward
          have hcons : s.traffic.forward = handover :: rest := hforward
          rw [htake, hcons, List.tail_cons, ← hrest]
          dsimp only
          rw [traffic_mapCounters, traffic_mapShard]
          split
          · rename_i hid
            rw [hid, hs]
            rfl
          · rfl

theorem draw_of_nil {x : Exchange} {shard : Nat} (h : (x.traffic shard).forward = []) :
    x.draw shard = x := by
  cases hs : x.shard? shard with
  | none => rw [draw, hs]
  | some s =>
      have htraffic : x.traffic shard = s.traffic := traffic_of_shard? hs
      rw [htraffic] at h
      rw [draw, hs]
      dsimp only
      rw [Queue.take?_of_nil (q := s.forward) h]

/-- To relay is to draw a frame and to queue it. -/
theorem relay_of_forward {x : Exchange} {shard : Nat} {handover : Handover} {rest : List Handover}
    (h : (x.traffic shard).forward = handover :: rest) : x.relay shard
      = ((x.draw shard).enqueue shard handover.frame (some handover.target)).2 := by
  cases hs : x.shard? shard with
  | none =>
      have hnone : x.traffic shard = {} := traffic_of_none hs
      rw [hnone] at h
      exact absurd h (List.cons_ne_nil _ _).symm
  | some s =>
      have htraffic : x.traffic shard = s.traffic := traffic_of_shard? hs
      rw [htraffic] at h
      obtain ⟨forward, htake, -, -⟩ := Queue.take?_of_cons (q := s.forward) h
      rw [relay, draw, hs]
      dsimp only
      rw [htake]

theorem config_take (x : Exchange) (shard : Nat) : (x.take shard).config = x.config := by
  rw [take]
  split
  · rfl
  · split
    · split
      · rfl
      · rfl
    · rfl

theorem config_draw (x : Exchange) (shard : Nat) : (x.draw shard).config = x.config := by
  rw [draw]
  split
  · rfl
  · split
    · rfl
    · rfl

end Exchange

namespace Pursuit

/-- The pursuit of nothing so far. -/
def start (x : Exchange) : Pursuit where
  exchange := x
  trail shard := .unlabelled (x.traffic shard)
  accepted := []

/-- What comes of a move. -/
def result (w : Pursuit) : Move → Exchange
  | .hand shard e raw => (w.exchange.enqueueEnvelope shard e raw).2
  | .act action => w.exchange.act action
  | .other y => y

/-- The exchange when the thing that a move is about was picked up. -/
def lifted (w : Pursuit) : Move → Exchange
  | .act (.take shard) => w.exchange.take shard
  | .act (.relay shard) => w.exchange.draw shard
  | .act (.finish shard slot) => w.exchange.putDown shard slot
  | _ => w.exchange

/-- The trail when the thing that a move is about was picked up. A processor that takes a task keeps it
in its hand. -/
def lift (w : Pursuit) : Move → Nat → Trail
  | .act (.take shard) =>
    let t := w.trail shard
    if t.inHand.length < w.exchange.processors then
      Function.update w.trail shard
        { t with work := t.work.tail, inHand := t.inHand ++ t.work.head?.toList }
    else w.trail
  | .act (.relay shard) =>
    let t := w.trail shard
    Function.update w.trail shard { t with forward := t.forward.tail }
  | .act (.finish shard slot) =>
    let t := w.trail shard
    Function.update w.trail shard { t with inHand := t.inHand.eraseIdx slot }
  | _ => w.trail

/-- The number of the message that a move handles. -/
def label (w : Pursuit) : Move → Option Nat
  | .hand _ _ _ => some w.accepted.length
  | .act (.relay shard) => (w.trail shard).forward.head?.bind Prod.fst
  | .act (.finish shard slot) => (w.trail shard).inHand[slot]?.bind Prod.fst
  | _ => none

/-- The messages that were taken in up to the end of a move. -/
def taken (w : Pursuit) : Move → List (Envelope × Bytes)
  | .hand shard e raw =>
    match (w.exchange.enqueueEnvelope shard e raw).1 with
    | .ok () => w.accepted ++ [(e, raw)]
    | .error _ => w.accepted
  | _ => w.accepted

/-- What is queued in the course of a move gets the label of what the move handles. -/
def move (w : Pursuit) (m : Move) : Pursuit where
  exchange := w.result m
  trail shard := (w.lift m shard).follow (w.label m) ((w.result m).traffic shard)
  accepted := w.taken m

def after (w : Pursuit) (moves : List Move) : Pursuit := moves.foldl move w

/-- Whether something can happen: everything that an exchange does by itself, and what respects its
queues. -/
def Possible (w : Pursuit) : Move → Prop
  | .other y => w.exchange.Respects y
  | _ => True

/-- Moves that can happen one after another, where something holds of the exchange before each of them
and in the end. -/
def Goes (P : Exchange → Prop) : Pursuit → List Move → Prop
  | w, [] => P w.exchange
  | w, m :: moves => P w.exchange ∧ w.Possible m ∧ Goes P (w.move m) moves

/-- Without its labels, a trail is what waits at the shard. -/
structure Faithful (w : Pursuit) : Prop where
  keyed : w.exchange.ground.Keyed
  traffic : ∀ shard, (w.trail shard).traffic = w.exchange.traffic shard

variable {w : Pursuit} {m : Move} {shard : Nat}

/-- In the beginning nothing bears a label. -/
theorem faithful_start {x : Exchange} (h : x.ground.Keyed) : (start x).Faithful where
  keyed := h
  traffic _ := Trail.traffic_unlabelled _

/-- The labels are on what is left when something was picked up. -/
theorem traffic_lift (hw : w.Faithful) (m : Move) (id : Nat) :
    (w.lift m id).traffic = (w.lifted m).traffic id := by
  have hsame := hw.traffic id
  cases m with
  | hand shard e raw => exact hsame
  | other y => exact hsame
  | act action =>
      cases action with
      | take shard =>
          have hshard := hw.traffic shard
          -- whether a processor is free does not depend on labels
          have hlength : (w.trail shard).inHand.length = (w.exchange.traffic shard).inHand.length := by
            rw [← hshard]
            simp [Trail.traffic]
          rw [lift, lifted, Exchange.traffic_take]
          dsimp only
          rw [hlength]
          by_cases hfree : (w.exchange.traffic shard).inHand.length < w.exchange.processors
          · rw [if_pos hfree]
            by_cases hid : id = shard
            · rw [if_pos ⟨hid, hfree⟩, hid, Function.update_self, ← hshard]
              cases hwork : (w.trail shard).work with
              | nil => simp [Trail.traffic, hwork]
              | cons task rest => simp [Trail.traffic, hwork]
            · rw [if_neg fun h => hid h.1, Function.update_of_ne hid]
              exact hsame
          · rw [if_neg hfree, if_neg fun h => hfree h.2]
            exact hsame
      | relay shard =>
          rw [lift, lifted, Exchange.traffic_draw]
          by_cases hid : id = shard
          · rw [if_pos hid, hid, Function.update_self, ← hw.traffic shard]
            simp [Trail.traffic]
          · rw [if_neg hid, Function.update_of_ne hid]
            exact hsame
      | finish shard slot =>
          rw [lift, lifted, Exchange.traffic_putDown]
          by_cases hid : id = shard
          · rw [if_pos hid, hid, Function.update_self, ← hw.traffic shard]
            simp [Trail.traffic, List.eraseIdx_map]
          · rw [if_neg hid, Function.update_of_ne hid]
            exact hsame
      | _ => exact hsame

theorem connections_take (x : Exchange) (shard : Nat) :
    (x.take shard).connections = x.connections := by
  rw [Exchange.take]
  split
  · rfl
  · split
    · split
      · rfl
      · rfl
    · rfl

theorem connections_draw (x : Exchange) (shard : Nat) :
    (x.draw shard).connections = x.connections := by
  rw [Exchange.draw]
  split
  · rfl
  · split
    · rfl
    · rfl

theorem connections_lifted (w : Pursuit) (m : Move) :
    (w.lifted m).connections = w.exchange.connections := by
  cases m with
  | hand shard e raw => rfl
  | other y => rfl
  | act action =>
      cases action with
      | take shard => exact connections_take _ _
      | relay shard => exact connections_draw _ _
      | finish shard slot => rfl
      | _ => rfl

/-- Nothing is picked up from a connection. -/
theorem waiting_lifted (w : Pursuit) (m : Move) (session : Session) :
    (w.lifted m).waiting session = w.exchange.waiting session := by
  rw [Exchange.waiting, Exchange.connection?, connections_lifted]
  rfl

/-- **What is picked up is all that a move takes from the queues.** -/
theorem respects_lifted (hm : w.Possible m) : (w.lifted m).Respects (w.result m) := by
  cases m with
  | hand shard e raw => exact (Exchange.extends_submit _ _ _).respects
  | other y => exact hm
  | act action =>
      cases action with
      -- the task was picked up, and nothing else is done with it
      | take shard => exact (Exchange.Extends.refl _).respects
      | relay shard =>
          cases hforward : (w.exchange.traffic shard).forward with
          | nil =>
              show Exchange.Respects (w.exchange.draw shard) (w.exchange.relay shard)
              rw [Exchange.draw_of_nil hforward, Exchange.relay_of_nil hforward]
              exact (Exchange.Extends.refl _).respects
          | cons handover rest =>
              show Exchange.Respects (w.exchange.draw shard) (w.exchange.relay shard)
              rw [Exchange.relay_of_forward hforward]
              exact (Exchange.extends_enqueue _ _ _ _).respects
      | finish shard slot =>
          show Exchange.Respects (w.exchange.putDown shard slot) (w.exchange.finish shard slot)
          cases hslot : (w.exchange.traffic shard).inHand[slot]? with
          | none =>
              -- there is nothing in this slot to be put down
              have hsame : w.exchange.outline = (w.exchange.putDown shard slot).outline := by
                refine Outline.ext rfl (funext fun id => ?_) rfl
                show w.exchange.traffic id = (w.exchange.putDown shard slot).traffic id
                rw [Exchange.traffic_putDown,
                  List.eraseIdx_of_length_le (List.getElem?_eq_none_iff.1 hslot)]
                split
                · rename_i hid
                  rw [hid]
                · rfl
              rw [Exchange.finish_of_none hslot]
              have hnothing : (w.exchange.putDown shard slot).Same w.exchange :=
                Exchange.same_of_eq rfl hsame
              exact hnothing.extends.respects
          | some task =>
              rw [Exchange.finish_eq_routeTask hslot]
              exact (Exchange.extends_routeTask _ _ _).respects
      | _ => exact Exchange.respects_act _ rfl

/-- What was picked up is where it belongs, and nothing else came between what waits. -/
theorem prefix_of_possible (hw : w.Faithful) (hm : w.Possible m) (id : Nat) :
    (w.lift m id).work.map Prod.snd <+: ((w.result m).traffic id).work
      ∧ (w.lift m id).forward.map Prod.snd <+: ((w.result m).traffic id).forward
      ∧ ((w.result m).traffic id).inHand = (w.lift m id).inHand.map Prod.snd := by
  have hlift := traffic_lift hw m id
  have hkeyed := Exchange.keyed_of_connections (connections_lifted w m) hw.keyed
  obtain ⟨-, hgrows | hsheds⟩ := respects_lifted hm hkeyed
  · have hwork := congrArg Traffic.work hlift
    have hforward := congrArg Traffic.forward hlift
    simp only [Trail.traffic] at hwork hforward
    rw [hwork, hforward]
    exact ⟨hgrows.work id, hgrows.forward id,
      (hgrows.inHand id).trans (congrArg Traffic.inHand hlift).symm⟩
  · -- frames were fetched from connections, so at the shards nothing happened
    have hsame : (w.result m).traffic id = (w.lift m id).traffic :=
      (congrFun hsheds.traffic id).trans hlift.symm
    rw [hsame]
    exact ⟨List.prefix_rfl, List.prefix_rfl, rfl⟩

/-- **Labels stay on what they are on.** -/
theorem faithful_move (hw : w.Faithful) (hm : w.Possible m) : (w.move m).Faithful where
  keyed := (respects_lifted hm (Exchange.keyed_of_connections (connections_lifted w m) hw.keyed)).1
  traffic id := by
    obtain ⟨hwork, hforward, hinHand⟩ := prefix_of_possible hw hm id
    refine Traffic.ext ?_ ?_ ?_
    · exact Trail.map_mark hwork
    · exact Trail.map_mark hforward
    · exact hinHand.symm

/-- **Labels never get lost**, whatever happens. -/
theorem faithful_after {P : Exchange → Prop} {moves : List Move} (hw : w.Faithful)
    (hgoes : w.Goes P moves) : (w.after moves).Faithful := by
  induction moves generalizing w with
  | nil => exact hw
  | cons m moves ih =>
      -- whatever holds of the exchanges in between, each move keeps the labels
      obtain ⟨-, hpossible, hgoes⟩ := hgoes
      exact ih (faithful_move hw hpossible) hgoes

end Pursuit

end Switchboard
