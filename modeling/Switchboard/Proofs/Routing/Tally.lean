import Mathlib.Algebra.Ring.Nat
import Switchboard.Proofs.Routing.Bringing
import Switchboard.Proofs.Routing.Following

/-!
# What is counted

A message comes to its end when it is written, kept or dropped, and the shard where this happens
counts it. `Counted` says of two exchanges how many messages have come to their end in between, at
all shards together, and how many of these were kept, each as one record. A message that is routed
comes to its end, or its frames go into the forward queue of another shard and nothing is counted
(`fares_inbound`); one that was handed over comes to its end frame by frame (`concluded_forwarded`).
-/

namespace Switchboard

/-- Messages that came to an end. -/
def Counters.settled (c : Counters) : Nat := c.delivered + c.persisted + c.dropped

namespace Exchange

/-- What all shards together have counted. -/
def total (x : Exchange) (part : Counters → Nat) : Nat :=
  (x.pool.shards.map fun s => part s.counters).sum

/-- The messages that came to an end, at all shards. -/
def settled (x : Exchange) : Nat := x.total Counters.settled

/-- The messages that were kept, at all shards. -/
def persisted (x : Exchange) : Nat := x.total Counters.persisted

/-- The records of messages that were kept. -/
def records (x : Exchange) : Nat := x.services.offline.length

/-- From one exchange to a later one, so many messages have come to an end, and so many of these
were kept, each of them as one record. -/
structure Counted (settled kept : Nat) (x y : Exchange) : Prop where
  size : y.pool.shards.length = x.pool.shards.length
  settled : y.settled = x.settled + settled
  persisted : y.persisted = x.persisted + kept
  records : y.records = x.records + kept

variable {x y z : Exchange} {part : Counters → Nat} {shard n n' kept kept' : Nat}

theorem counters_of_counters? (h : y.counters? = x.counters?) :
    y.pool.shards.map Shard.counters = x.pool.shards.map Shard.counters := by
  refine List.ext_getElem? fun id => ?_
  rw [List.getElem?_map, List.getElem?_map]
  exact congrFun h id

theorem total_of_counters? (h : y.counters? = x.counters?) (part : Counters → Nat) :
    y.total part = x.total part := by
  have htotal : ∀ x : Exchange,
      x.total part = ((x.pool.shards.map Shard.counters).map part).sum := by
    intro x
    rw [List.map_map]
    rfl
  rw [htotal, htotal, counters_of_counters? h]

theorem sum_modify {α : Type} {f : α → α} {g : α → Nat} {k : Nat} (hf : ∀ a, g (f a) = g a + k)
    {items : List α} {i : Nat} (hi : i < items.length) :
    ((items.modify i f).map g).sum = (items.map g).sum + k := by
  -- on the items, up to the one that is changed
  induction items generalizing i with
  | nil => exact absurd hi (Nat.not_lt_zero i)
  | cons a items ih =>
      cases i with
      | zero =>
          rw [List.modify_zero_cons, List.map_cons, List.map_cons, List.sum_cons, List.sum_cons, hf]
          omega
      | succ i =>
          rw [List.modify_succ_cons, List.map_cons, List.map_cons, List.sum_cons, List.sum_cons,
            ih (Nat.lt_of_succ_lt_succ hi)]
          omega

theorem total_mapCounters {f : Counters → Counters} {k : Nat} (hf : ∀ c, part (f c) = part c + k)
    (hshard : (x.shard? shard).isSome) : (x.mapCounters shard f).total part = x.total part + k := by
  obtain ⟨s, hs⟩ := Option.isSome_iff_exists.1 hshard
  obtain ⟨hlt, -⟩ := List.getElem?_eq_some_iff.1 hs
  exact sum_modify (g := fun s : Shard => part s.counters) (fun s => hf s.counters) hlt

theorem Counted.refl (x : Exchange) : Counted 0 0 x x := ⟨rfl, rfl, rfl, rfl⟩

theorem Counted.of_counters? (h : Counted n kept x z) (hcounters : y.counters? = z.counters?)
    (hoffline : y.services.offline = z.services.offline) : Counted n kept x y where
  size := by
    have hlength := congrArg List.length (counters_of_counters? hcounters)
    rw [List.length_map, List.length_map] at hlength
    exact hlength.trans h.size
  settled := (total_of_counters? hcounters _).trans h.settled
  persisted := (total_of_counters? hcounters _).trans h.persisted
  records := (congrArg List.length hoffline).trans h.records

theorem Counted.trans (h : Counted n kept x y) (h' : Counted n' kept' y z) :
    Counted (n + n') (kept + kept') x z where
  size := h'.size.trans h.size
  settled := by rw [h'.settled, h.settled, Nat.add_assoc]
  persisted := by rw [h'.persisted, h.persisted, Nat.add_assoc]
  records := by rw [h'.records, h.records, Nat.add_assoc]

theorem Counted.after (h : Counted 0 0 x y) (h' : Counted n kept y z) : Counted n kept x z := by
  have htrans := h.trans h'
  rwa [Nat.zero_add, Nat.zero_add] at htrans

theorem isSome_shard?_iff : (x.shard? shard).isSome ↔ shard < x.pool.shards.length := by
  rw [shard?, Pool.shard?]
  simp

theorem Counted.isSome_shard? (h : Counted n kept x y) (hshard : (x.shard? shard).isSome) :
    (y.shard? shard).isSome := by
  rw [isSome_shard?_iff, h.size]
  exact isSome_shard?_iff.1 hshard

/-- Something is counted, and nothing is kept. -/
theorem counted_mapCounters {f : Counters → Counters}
    (hsettled : ∀ c, (f c).settled = c.settled + n)
    (hpersisted : ∀ c, (f c).persisted = c.persisted)
    (hshard : (x.shard? shard).isSome) : Counted n 0 x (x.mapCounters shard f) :=
  ⟨List.length_modify .., total_mapCounters hsettled hshard, total_mapCounters hpersisted hshard,
    rfl⟩

theorem counted_dropped (hshard : (x.shard? shard).isSome) :
    Counted 1 0 x (x.countDropped shard) :=
  counted_mapCounters (fun _ => rfl) (fun _ => rfl) hshard

theorem counted_delivered (hshard : (x.shard? shard).isSome) : Counted 1 0 x
    (x.mapCounters shard fun c => { c with delivered := c.delivered + 1 }) :=
  counted_mapCounters (fun c => by simp only [Counters.settled]; omega) (fun _ => rfl) hshard

end Exchange

namespace Routing

open Exchange

variable {s : Errand} {shard : Nat} {session : Session} {e : Envelope} {target : String}
  {frames : List Bytes} {raw : Bytes}

/-- What only asks counts nothing. -/
theorem rests_counted : Rests (Counted 0 0) where
  refl := Counted.refl
  trans h h' := h.after h'
  attempt x call := by
    obtain ⟨n, hn⟩ := x.attempt_snd call
    rw [hn]
    exact (Counted.refl x).of_counters? rfl rfl
  fresh x := (Counted.refl x).of_counters? rfl rfl
  assemble x shard assembler := by
    refine (Counted.refl x).of_counters? (counters?_mapShard_of_same ?_ x shard) rfl
    exact fun _ => rfl
  ask x _ := (Counted.refl x).of_counters? rfl rfl

/-- What is kept is one message that has come to its end. -/
theorem counted_keep {x : Exchange} (hshard : (x.shard? shard).isSome) (e : Envelope)
    (target id : String) : Counted 1 1 x (keep x shard e target id) := by
  let y : Exchange := { x with
    services.offline := x.services.offline.persist id e.sender target e.content x.now }
  have hsettled : ∀ c : Counters,
      ({ c with persisted := c.persisted + 1 } : Counters).settled = c.settled + 1 := by
    intro c
    simp only [Counters.settled]
    omega
  refine ⟨List.length_modify .., total_mapCounters (x := y) hsettled hshard,
    total_mapCounters (x := y) (fun _ => rfl) hshard, ?_⟩
  exact List.length_append

/-- What is stored is counted, or nothing is. -/
theorem counted_store (hshard : (s.exchange.shard? shard).isSome) (e : Envelope) (target : String) :
    Leaves (store shard e target) s fun y => ∃ n ≤ 1, Counted n n s.exchange y := by
  have hresolve := keeps_resolve rests_counted (s := s) shard e
  rw [Keeps] at hresolve
  refine Leaves.bind (fun message s' hrun => ?_) fun stop s' hrun => ?_
  · rw [hrun] at hresolve
    cases message with
    | none => exact ⟨0, Nat.zero_le 1, hresolve⟩
    | some message =>
        dsimp only
        split
        · exact ⟨0, Nat.zero_le 1, hresolve⟩
        · -- whatever identity the record gets, it is kept unless the call fails
          have hkeep : ∀ id t, Counted 0 0 s.exchange t.exchange → Leaves (do
              call .persist
              change fun x =>
                let x := { x with
                  services.offline := x.services.offline.persist id message.sender target
                    message.content x.now }
                x.mapCounters shard fun c => { c with persisted := c.persisted + 1 }) t fun y =>
              ∃ n ≤ 1, Counted n n s.exchange y := by
            intro id t ht
            have hcall := keeps_call rests_counted (s := t) .persist
            rw [Keeps] at hcall
            refine Leaves.bind (fun _ t' hrun' => ?_) fun stop t' hrun' => ?_
            · rw [hrun'] at hcall
              have hasked := ht.after hcall
              exact ⟨1, Nat.le_refl 1,
                hasked.after (counted_keep (hasked.isSome_shard? hshard) message target id)⟩
            · rw [hrun'] at hcall
              exact ⟨0, Nat.zero_le 1, ht.after hcall⟩
          split
          · refine Runs.bind_leaves (a := Exchange.formatId s'.exchange.issued) rfl ?_
            exact hkeep _ _ (hresolve.after (rests_counted.fresh s'.exchange))
          · exact Runs.bind_leaves rfl (hkeep _ _ hresolve)
  · rw [hrun] at hresolve
    exact ⟨0, Nat.zero_le 1, hresolve⟩

/-- **A whole message that is no call signal is kept once.** -/
theorem counted_store_of_whole (hwell : s.exchange.services.outages = [])
    (hshard : (s.exchange.shard? shard).isSome) (hwhole : e.isFragment = false)
    (hsignal : e.contentKind.isCallSignal = false) (target : String) :
    Leaves (store shard e target) s (Counted 1 1 s.exchange) := by
  by_cases hid : e.messageId = ""
  · rw [Leaves, runs_store_of_unnamed hwell shard hwhole hsignal hid target]
    exact (rests_counted.fresh s.exchange).after
      (counted_keep (x := s.exchange.freshId.2) hshard e target _)
  · rw [Leaves, runs_store_of_named hwell shard hwhole hsignal hid target]
    exact counted_keep hshard e target _

/-- **A message that is written is counted once.** -/
theorem counted_write (hkeyed : s.exchange.ground.Keyed) (hshard : (s.exchange.shard? shard).isSome)
    (session : Session) (frames : List Bytes) : Leaves (write shard session frames) s fun y =>
      (∀ id, y.traffic id = s.exchange.traffic id) ∧ Counted 1 0 s.exchange y := by
  have hgave : Leaves (write shard session frames) s fun y =>
      y.view = s.exchange.view.give session frames :=
    (ends_write shard (keepsAt_of_keyed hkeyed session) frames).leaves fun _ hs' => hs'.view
  -- a write that fails drops the message, and either way one is counted
  obtain ⟨f, hf, hcounters⟩ := counters?_write shard session frames s
  refine ⟨Exchange.traffic_of_view hgave, ?_⟩
  have hcounted : Counted 1 0 s.exchange (s.exchange.mapCounters shard f) := by
    rcases hf with rfl | rfl
    · exact counted_delivered hshard
    · exact counted_dropped hshard
  exact hcounted.of_counters? hcounters (congrArg View.offline hgave)

end Routing

/-- A whole message for one person that is no call signal. -/
structure Envelope.Letter (e : Envelope) : Prop where
  recipient : e.recipient ≠ ""
  kind : e.deliveryKind = .direct
  whole : e.isFragment = false
  signal : e.contentKind.isCallSignal = false

namespace Exchange

/-- There is no broker, no service is out, and every shard takes tasks as long as it has room for
them and has the limits of the configuration; a message is not for the assistant, and does not need
more fragments than there may be. -/
structure Serving (e : Envelope) (x : Exchange) : Prop where
  off : x.services.publishing = .off
  well : x.services.outages = []
  person : x.services.isAssistant e.recipient = false
  listening : ∀ id s, x.shard? id = some s → s.work.intake = .listening
  limits : ∀ id s, x.shard? id = some s → s.assembler.limits = x.config.fragment.limits
  splits : e.isOversized x.config.fragment.limits = true →
    x.config.fragment.limits.required
      (e.completed (formatId x.issued) x.timestamp).encode.length
        ≤ x.config.fragment.limits.cap.toNat

/-- How a message fares that is routed at a shard: it has come to its end; or the first of its
frames are handed to another shard, all of them unless there is no room for the next one. -/
inductive Fares (home : Nat) (target : String) (frames : List Bytes) (x y : Exchange) : Prop
  | settled {kept : Nat} (htraffic : ∀ id, y.traffic id = x.traffic id) (h : Counted 1 kept x y)
  | handed {owner k : Nat} (hwhere : x.whereabouts home target = .elsewhere owner)
      (hk : k ≤ frames.length) (hroom : k < frames.length → ¬ y.view.CanForward owner 1)
      (hhanded : Handed owner target (frames.take k) x y) (h : Counted 0 0 x y)

end Exchange

namespace Routing

open Exchange

variable {s : Errand} {x : Exchange} {shard home : Nat} {session : Session} {e : Envelope}
  {target : String} {frames : List Bytes} {raw : Bytes}

/-- A message that is stored has come to its end. -/
theorem fares_store (hwell : s.exchange.services.outages = [])
    (hshard : (s.exchange.shard? home).isSome) (hwhole : e.isFragment = false)
    (hsignal : e.contentKind.isCallSignal = false) (target : String) :
    Leaves (store home e target) s (Fares home target frames s.exchange) := by
  have hsame : Leaves (store home e target) s fun y => y.outline = s.exchange.outline :=
    keeps_store idles_outline home e target
  have hcounted := counted_store_of_whole hwell hshard hwhole hsignal target
  exact .settled (fun id => congrFun (congrArg Outline.traffic hsame) id) hcounted

/-- **A message comes to its end, or is handed to another shard.** -/
theorem fares_deliver (hkeyed : s.exchange.ground.Keyed)
    (hoff : s.exchange.services.publishing = .off) (hwell : s.exchange.services.outages = [])
    (hshard : (s.exchange.shard? home).isSome) (hwhole : e.isFragment = false)
    (hsignal : e.contentKind.isCallSignal = false) (hframes : frames ≠ []) (target : String) :
    Leaves (deliver home e target frames) s (Fares home target frames s.exchange) := by
  refine (runs_isOnline hwell target).bind_leaves ?_
  split
  · refine Leaves.exchange_bind ?_
    split
    · rename_i session hwhere
      -- with no broker it is written
      refine (runs_published (mute_of_off hoff) (by simpa using hframes)).bind_leaves ?_
      obtain ⟨htraffic, hcounted⟩ := counted_write (s := s) hkeyed hshard session frames
      exact .settled htraffic hcounted
    · rename_i owner hwhere
      obtain ⟨k, hk, hview, hcounters, hroom⟩ := handed_forward owner target frames s
      refine .handed hwhere hk hroom (handed_of_view hview) ?_
      exact (Counted.refl _).of_counters? hcounters (congrArg View.offline hview)
    · exact fares_store hwell hshard hwhole hsignal target
  · exact fares_store hwell hshard hwhole hsignal target

end Routing

namespace Exchange

variable {x y : Exchange} {home owner : Nat} {e : Envelope} {target : String} {raw : Bytes}
  {frames : List Bytes} {n kept : Nat}

open Routing

theorem counted_fault (x : Exchange) (shard : Nat) :
    Counted 0 0 x (x.mapCounters shard fun c => { c with faults := c.faults + 1 }) := by
  cases hs : x.shard? shard with
  | none =>
      rw [mapCounters, mapShard_of_none hs]
      exact Counted.refl x
  | some s => exact counted_mapCounters (fun _ => rfl) (fun _ => rfl) (by rw [hs]; rfl)

theorem Fares.fault (h : Fares home target frames x y) (shard : Nat) : Fares home target frames x
    (y.mapCounters shard fun c => { c with faults := c.faults + 1 }) := by
  have htraffic := traffic_mapCounters y shard fun c => { c with faults := c.faults + 1 }
  have hfault := counted_fault y shard
  cases h with
  | settled hsame h => exact .settled (fun id => (htraffic id).trans (hsame id)) (h.trans hfault)
  | handed hwhere hk hroom hhanded h =>
      refine .handed hwhere hk ?_ ⟨fun id => ?_, fun id => ?_, hhanded.waiting⟩ (h.trans hfault)
      · rw [view_mapCounters]
        exact hroom
      · rw [htraffic]
        exact hhanded.work id
      · rw [htraffic]
        exact hhanded.forward id

/-- **A message that is routed** comes to its end, or is handed to another shard. -/
theorem fares_inbound (hkeyed : x.ground.Keyed) (hserving : x.Serving e) (he : e.Letter)
    (hshard : (x.shard? home).isSome) (raw : Bytes) :
    Fares home e.recipient (x.frames e raw) x
      (x.routeTask home { envelope := e, raw, origin := .inbound }) := by
  obtain ⟨t, ht⟩ := Option.isSome_iff_exists.1 hshard
  let x' : Exchange := { x with issued := e.drawn x.config.fragment.limits x.issued }
  have hmade : Runs (outboundFrames home e raw) { exchange := x, copy := .unresolved }
      (x.frames e raw) { exchange := x', copy := .unresolved } := by
    have hrun := run_outboundFrames (s := { exchange := x, copy := .unresolved }) ht e raw
    rw [hserving.limits home t ht, Envelope.framed_of_whole he.whole hserving.splits raw] at hrun
    exact hrun
  have hfares : Leaves (route home { envelope := e, raw, origin := .inbound })
      { exchange := x, copy := .unresolved } (Fares home e.recipient (x.frames e raw) x) := by
    rw [route_inbound he.recipient he.kind home raw]
    refine Leaves.exchange_bind ?_
    rw [if_neg (by rw [hserving.person]; exact Bool.false_ne_true)]
    refine hmade.bind_leaves ?_
    have hsame : Counted 0 0 x x' := (Counted.refl x).of_counters? rfl rfl
    have hframes : x.frames e raw ≠ [] := Envelope.frames_ne_nil _ _ _ e raw
    have hdeliver := fares_deliver (s := { exchange := x', copy := .unresolved }) hkeyed
      hserving.off hserving.well hshard he.whole he.signal hframes e.recipient
    -- drawing an identity changes nothing of what matters
    cases hdeliver with
    | settled htraffic h => exact .settled htraffic (hsame.after h)
    | handed hwhere hk hroom hhanded h =>
        exact .handed hwhere hk hroom ⟨hhanded.work, hhanded.forward, hhanded.waiting⟩
          (hsame.after h)
  exact routeTask_of_leaves hfares fun y hy => hy.fault home

/-- What comes of a frame that was handed over: nothing more waits for it, and it is counted once,
unless its target has left and it is one fragment of several or a call signal. -/
structure Concluded (x : Exchange) (owner : Nat) (target : String) (e : Envelope) (y : Exchange) :
    Prop where
  traffic : ∀ id, y.traffic id = x.traffic id
  counted : ∃ n ≤ 1, ∃ kept, Counted n kept x y ∧
    ((e.isFragment = false ∧ e.contentKind.isCallSignal = false) ∨
      (x.holder? owner target).isSome → n = 1)

theorem Concluded.fault (h : Concluded x owner target e y) (id : Nat) :
    Concluded x owner target e (y.mapCounters id fun c => { c with faults := c.faults + 1 }) := by
  obtain ⟨htraffic, n, hn, kept, hcounted, hexact⟩ := h
  exact ⟨fun id' => (traffic_mapCounters y id _ id').trans (htraffic id'), n, hn, kept,
    hcounted.trans (counted_fault y id), hexact⟩

/-- What is kept for somebody who has left is counted. -/
theorem concluded_store (hwell : x.services.outages = []) (hshard : (x.shard? owner).isSome)
    (e : Envelope) (hnone : x.holder? owner target = none) :
    Leaves (store owner e target) { exchange := x, copy := .unresolved }
      (Concluded x owner target e) := by
  have hsame : Leaves (store owner e target) { exchange := x, copy := .unresolved } fun y =>
      y.outline = x.outline := keeps_store idles_outline owner e target
  refine ⟨fun id => congrFun (congrArg Outline.traffic hsame) id, ?_⟩
  by_cases hexact : e.isFragment = false ∧ e.contentKind.isCallSignal = false
  · exact ⟨1, Nat.le_refl 1, 1,
      counted_store_of_whole (s := { exchange := x, copy := .unresolved }) hwell hshard hexact.1
        hexact.2 target, fun _ => rfl⟩
  · obtain ⟨n, hn, hcounted⟩ :=
      counted_store (s := { exchange := x, copy := .unresolved }) hshard e target
    -- a fragment, or a call signal: nothing is claimed, since the target is gone
    refine ⟨n, hn, n, hcounted, fun h => ?_⟩
    rcases h with hwhole | hheld
    · exact absurd hwhole hexact
    · rw [hnone] at hheld
      exact absurd hheld Bool.false_ne_true

/-- **A frame that was handed over** comes to its end, unless its target has left and it is one
fragment of several. -/
theorem concluded_forwarded (hkeyed : x.ground.Keyed) (hwell : x.services.outages = [])
    (hshard : (x.shard? owner).isSome) (target : String) (e : Envelope) (raw : Bytes) :
    Concluded x owner target e
      (x.routeTask owner { envelope := e, raw, origin := .forwarded target }) := by
  have hroute : Leaves (route owner { envelope := e, raw, origin := .forwarded target })
      { exchange := x, copy := .unresolved } (Concluded x owner target e) := by
    refine Leaves.exchange_bind ?_
    split
    · rename_i session _
      obtain ⟨htraffic, hcounted⟩ := counted_write (s := { exchange := x, copy := .unresolved })
        hkeyed hshard session [raw]
      exact ⟨htraffic, 1, Nat.le_refl 1, 0, hcounted, fun _ => rfl⟩
    · rename_i hnone
      refine (runs_isOnline (s := { exchange := x, copy := .unresolved }) hwell
        target).bind_leaves ?_
      split
      · exact ⟨traffic_mapCounters x owner _, 1, Nat.le_refl 1, 0, counted_dropped hshard,
          fun _ => rfl⟩
      · exact concluded_store hwell hshard e hnone
  exact routeTask_of_leaves hroute fun y hy => hy.fault owner

end Exchange

end Switchboard
