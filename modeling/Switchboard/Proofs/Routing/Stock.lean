import Switchboard.Proofs.Fragment.Reassembly
import Switchboard.Proofs.Routing.Lanes

/-!
# What is kept for those who are away

Keeping a message for a target changes the store, the number of identities handed out, the fragments
that the shard is joining and was given, and whether the message that is being routed was joined
already. They are the `Stock` of a shard, and what becomes of it does not depend on anything else
but the time: `Stock.keep` is what the routing does to it (`ends_store`). So whoever is away gets
the same, however the others are reached. A fragment is taken in once, and the message that it
completes is kept for everybody who is away (`Stock.keepAll_of_pending`,
`Stock.keptFor_of_complete`).
-/

namespace Switchboard

namespace Envelope

/-- What is kept of a message for some targets that are away: for each of them what is kept for one,
and nothing for anybody else. -/
structure KeptFor (e : Envelope) (targets : List String) (now first next : Nat)
    (kept : OfflineStore) : Prop where
  each : ∀ target ∈ targets, e.Kept target now first next (kept.filter (·.target = target))
  only : ∀ record ∈ kept, record.target ∈ targets

variable {e : Envelope} {target : String} {targets : List String} {now first first' next : Nat}
  {kept others : OfflineStore}

theorem Kept.target_of_mem (h : e.Kept target now first next kept) {record : StoredMessage}
    (hmem : record ∈ kept) : record.target = target := by
  cases hsignal : e.contentKind.isCallSignal with
  | true =>
      rw [h.1 hsignal] at hmem
      exact absurd hmem List.not_mem_nil
  | false =>
      obtain ⟨id, -, -, heq⟩ := h.2 hsignal
      rw [heq] at hmem
      rw [List.mem_singleton.1 hmem]

theorem KeptFor.mono (h : e.KeptFor targets now first' next kept) (hfirst : first ≤ first') :
    e.KeptFor targets now first next kept :=
  ⟨fun target htarget => (h.each target htarget).mono hfirst (Nat.le_refl _), h.only⟩

/-- What is kept for one target more comes before the rest. -/
theorem KeptFor.cons (hnot : target ∉ targets) (h : e.Kept target now first next kept)
    (h' : e.KeptFor targets now first next others) :
    e.KeptFor (target :: targets) now first next (kept ++ others) where
  each target' htarget' := by
    rw [List.filter_append]
    by_cases htarget : target' = target
    · subst htarget
      have hkept : kept.filter (·.target = target') = kept :=
        List.filter_eq_self.2 fun record hrecord => decide_eq_true (h.target_of_mem hrecord)
      have hothers : others.filter (·.target = target') = [] := by
        refine List.filter_eq_nil_iff.2 fun record hrecord heq => hnot ?_
        rw [← of_decide_eq_true heq]
        exact h'.only record hrecord
      rw [hkept, hothers, List.append_nil]
      exact h
    · have hkept : kept.filter (·.target = target') = [] := by
        refine List.filter_eq_nil_iff.2 fun record hrecord heq => htarget ?_
        rw [← of_decide_eq_true heq]
        exact h.target_of_mem hrecord
      rw [hkept, List.nil_append]
      exact h'.each target' ((List.mem_cons.1 htarget').resolve_left htarget)
  only record hrecord := by
    rcases List.mem_append.1 hrecord with hmem | hmem
    · rw [h.target_of_mem hmem]
      exact List.mem_cons_self
    · exact List.mem_cons_of_mem _ (h'.only record hmem)

end Envelope

/-- What keeping a message for those who are away depends on, and what it changes. -/
structure Stock where
  offline : OfflineStore
  issued : Nat
  /-- The fragments that the shard is joining. -/
  assembler : Option Assembler
  copy : Copy
  /-- The envelopes that the assembler was given. -/
  given : List Envelope := []

namespace Stock

/-- The message that a target gets who is away, and the stock after it was asked for. -/
def resolve (now : Nat) (e : Envelope) (k : Stock) : Option Envelope × Stock :=
  if !e.isFragment then (some e, k)
  else
    match k.copy, k.assembler with
    | .whole message, _ => (some message, k)
    | .waiting, _ => (none, k)
    | .unresolved, none => (none, { k with copy := .waiting, given := k.given ++ [e] })
    | .unresolved, some assembler =>
      match assembler.receive now e with
      | (.ok (.complete message), assembler) =>
        (some message, { k with
          assembler := some assembler, copy := .whole message, given := k.given ++ [e] })
      | (_, assembler) => (none, { k with
          assembler := some assembler, copy := .waiting, given := k.given ++ [e] })

/-- Keeps a whole message for a target. -/
def put (now : Nat) (message : Envelope) (target : String) (k : Stock) : Stock :=
  if message.contentKind.isCallSignal then k
  else
    let id := if message.messageId = "" then Exchange.formatId k.issued else message.messageId
    { k with
      offline := k.offline.persist id message.sender target message.content now
      issued := if message.messageId = "" then k.issued + 1 else k.issued }

/-- Keeps what a target gets who is away. -/
def keep (now : Nat) (e : Envelope) (k : Stock) (target : String) : Stock :=
  match k.resolve now e with
  | (some message, k) => k.put now message target
  | (none, k) => k

/-- Keeps it for one target after another. -/
def keepAll (now : Nat) (e : Envelope) (targets : List String) (k : Stock) : Stock :=
  targets.foldl (keep now e) k

theorem keepAll_concat (now : Nat) (e : Envelope) (targets : List String) (target : String)
    (k : Stock) :
    k.keepAll now e (targets ++ [target]) = (k.keepAll now e targets).keep now e target :=
  List.foldl_concat ..

variable {now : Nat} {e : Envelope} {k : Stock} {target : String}

theorem keep_of_whole (hwhole : e.isFragment = false) (k : Stock) (target : String) :
    k.keep now e target = k.put now e target := by
  rw [keep, resolve, hwhole]
  rfl

/-- Nothing of a call signal is kept, and one unread record of any other message. -/
theorem kept_put (now : Nat) (e : Envelope) (target : String) (k : Stock) :
    ∃ kept, e.Kept target now k.issued (k.put now e target).issued kept ∧
      k.issued ≤ (k.put now e target).issued ∧
      (k.put now e target).offline = k.offline ++ kept := by
  rw [put]
  by_cases hsignal : e.contentKind.isCallSignal = true
  · rw [if_pos hsignal]
    refine ⟨[], ⟨fun _ => rfl, fun h => ?_⟩, Nat.le_refl _, (List.append_nil _).symm⟩
    exact absurd (h.symm.trans hsignal) Bool.false_ne_true
  · rw [if_neg hsignal]
    refine ⟨_, ⟨fun h => absurd h hsignal, fun _ => ⟨_, fun hid => if_neg hid, fun hid => ?_, rfl⟩⟩,
      ?_, rfl⟩
    · -- a message with no identity of its own draws the next one
      refine ⟨k.issued, Nat.le_refl _, ?_, if_pos hid⟩
      dsimp only
      rw [if_pos hid]
      exact Nat.lt_succ_self _
    · dsimp only
      split
      · exact Nat.le_succ _
      · exact Nat.le_refl _

/-- Finding the message out does not touch the store. -/
theorem offline_resolve (now : Nat) (e : Envelope) (k : Stock) :
    (k.resolve now e).2.offline = k.offline := by
  rw [resolve]
  split
  · rfl
  · split
    · rfl
    · rfl
    · rfl
    · split
      · rfl
      · rfl

/-- Records are only ever added to the store. -/
theorem offline_keepAll (now : Nat) (e : Envelope) (targets : List String) (k : Stock) :
    ∃ kept, (k.keepAll now e targets).offline = k.offline ++ kept := by
  induction targets generalizing k with
  | nil => exact ⟨[], (List.append_nil _).symm⟩
  | cons target targets ih =>
      obtain ⟨kept, hkept⟩ : ∃ kept, (k.keep now e target).offline = k.offline ++ kept := by
        have hsame := offline_resolve now e k
        rw [keep]
        cases hresolve : k.resolve now e with
        | mk message k' =>
            rw [hresolve] at hsame
            cases message with
            | none => exact ⟨[], hsame.trans (List.append_nil _).symm⟩
            | some message =>
                obtain ⟨kept, -, -, hput⟩ := kept_put now message target k'
                exact ⟨kept, hput.trans (congrArg (· ++ kept) hsame)⟩
      obtain ⟨others, hothers⟩ := ih (k.keep now e target)
      refine ⟨kept ++ others, ?_⟩
      rw [← List.append_assoc, ← hkept]
      exact hothers

/-- **Of a whole message that is kept for several targets, each of them gets its own record.** -/
theorem keptFor_keepAll (hwhole : e.isFragment = false) (now : Nat) {targets : List String}
    (hnodup : targets.Nodup) (k : Stock) :
    ∃ kept, e.KeptFor targets now k.issued (k.keepAll now e targets).issued kept ∧
      k.issued ≤ (k.keepAll now e targets).issued ∧
      (k.keepAll now e targets).offline = k.offline ++ kept := by
  -- on the targets; the identities that the later ones draw come after those of the first
  induction targets generalizing k with
  | nil =>
      refine ⟨[], ⟨fun _ h => ?_, fun _ h => ?_⟩, Nat.le_refl _, (List.append_nil _).symm⟩
      · exact absurd h List.not_mem_nil
      · exact absurd h List.not_mem_nil
  | cons target targets ih =>
      obtain ⟨hnot, hnodup⟩ := List.nodup_cons.1 hnodup
      obtain ⟨kept, hkept, hle, hoffline⟩ := kept_put now e target k
      obtain ⟨others, hothers, hle', hoffline'⟩ := ih hnodup (k.put now e target)
      have hall : k.keepAll now e (target :: targets)
          = (k.put now e target).keepAll now e targets := by
        rw [keepAll, List.foldl_cons, keep_of_whole hwhole]
        rfl
      rw [hall]
      refine ⟨kept ++ others, ?_, Nat.le_trans hle hle', ?_⟩
      · exact .cons hnot (hkept.mono (Nat.le_refl _) hle') (hothers.mono hle)
      · rw [hoffline', hoffline, List.append_assoc]

/-- Keeping a whole message is nothing to the fragments that are being joined. -/
theorem put_eq (now : Nat) (e : Envelope) (target : String) (k : Stock) :
    ∃ offline issued, k.put now e target = { k with offline, issued } := by
  rw [put]
  split
  · exact ⟨_, _, rfl⟩
  · exact ⟨_, _, rfl⟩

theorem keepAll_eq_of_whole (hwhole : e.isFragment = false) (now : Nat) (targets : List String)
    (k : Stock) : ∃ offline issued, k.keepAll now e targets = { k with offline, issued } := by
  induction targets generalizing k with
  | nil => exact ⟨_, _, rfl⟩
  | cons target targets ih =>
      obtain ⟨offline, issued, hput⟩ := put_eq now e target k
      obtain ⟨offline', issued', hall⟩ := ih (k.put now e target)
      refine ⟨offline', issued', ?_⟩
      rw [keepAll, List.foldl_cons, keep_of_whole hwhole]
      refine hall.trans ?_
      rw [hput]

/-! ### A fragment for several targets -/

section Fragment

variable {message : Envelope} {a a' : Assembler} (hfragment : e.isFragment = true)

include hfragment

/-- Where other fragments are missing, nothing is kept for the targets that come next. -/
theorem keepAll_of_waiting (hcopy : k.copy = .waiting) (now : Nat) (targets : List String) :
    k.keepAll now e targets = k := by
  -- on the targets, none of which changes anything
  induction targets with
  | nil => rfl
  | cons target targets ih =>
      have hkeep : k.keep now e target = k := by
        rw [keep, resolve, hfragment, hcopy]
        rfl
      rw [keepAll, List.foldl_cons, hkeep]
      exact ih

/-- Once a fragment has completed its message, that is kept for the targets that come next. -/
theorem keepAll_of_whole_copy (hwhole : message.isFragment = false)
    (hcopy : k.copy = .whole message) (now : Nat) (targets : List String) :
    k.keepAll now e targets = k.keepAll now message targets := by
  induction targets generalizing k with
  | nil => rfl
  | cons target targets ih =>
      have hkeep : k.keep now e target = k.put now message target := by
        rw [keep, resolve, hfragment, hcopy]
        rfl
      -- keeping it for one leaves the whole message at hand for the next
      have hcopy' : (k.put now message target).copy = .whole message := by
        obtain ⟨offline, issued, hput⟩ := put_eq now message target k
        rw [hput]
        exact hcopy
      rw [keepAll, keepAll, List.foldl_cons, List.foldl_cons, hkeep, keep_of_whole hwhole]
      exact ih hcopy'

variable (hjoining : k.assembler = some a) (hcopy : k.copy = .unresolved)

include hjoining hcopy

/-- **A fragment that leaves a gap is taken in once**, for however many targets, and nothing is
kept. -/
theorem keepAll_of_pending {received : Nat} {total : UInt32}
    (hreceive : a.receive now e = (.ok (.pending received total), a')) {targets : List String}
    (htargets : targets ≠ []) : k.keepAll now e targets
      = { k with assembler := some a', copy := .waiting, given := k.given ++ [e] } := by
  obtain ⟨target, targets, rfl⟩ := List.exists_cons_of_ne_nil htargets
  have hkeep : k.keep now e target
      = { k with assembler := some a', copy := .waiting, given := k.given ++ [e] } := by
    simp only [keep, resolve, hfragment, hcopy, hjoining, hreceive, Bool.not_true,
      Bool.false_eq_true, if_false]
  rw [keepAll, List.foldl_cons, hkeep]
  exact keepAll_of_waiting hfragment rfl now targets

/-- A fragment that fills the last gap is joined for the first target. -/
theorem keepAll_of_complete (hreceive : a.receive now e = (.ok (.complete message), a'))
    (hwhole : message.isFragment = false) {targets : List String} (htargets : targets ≠ []) :
    k.keepAll now e targets = Stock.keepAll now message targets
      { k with assembler := some a', copy := .whole message, given := k.given ++ [e] } := by
  obtain ⟨target, targets, rfl⟩ := List.exists_cons_of_ne_nil htargets
  -- named, so that the record is not opened in what follows
  obtain ⟨joined, hjoined⟩ : ∃ joined : Stock, joined
      = { k with assembler := some a', copy := .whole message, given := k.given ++ [e] } := ⟨_, rfl⟩
  have hkeep : k.keep now e target = joined.put now message target := by
    simp only [keep, resolve, hfragment, hcopy, hjoining, hreceive, hjoined, Bool.not_true,
      Bool.false_eq_true, if_false]
  have hcopy' : (joined.put now message target).copy = .whole message := by
    obtain ⟨offline, issued, hput⟩ := put_eq now message target joined
    rw [hput, hjoined]
  rw [← hjoined, keepAll, keepAll, List.foldl_cons, List.foldl_cons, hkeep, keep_of_whole hwhole]
  exact keepAll_of_whole_copy hfragment hwhole hcopy' now targets

/-- **A fragment that fills the last gap is taken in once**, for however many targets, and each of
them gets its own record of the message. -/
theorem keptFor_of_complete (hreceive : a.receive now e = (.ok (.complete message), a'))
    (hwhole : message.isFragment = false) {targets : List String} (htargets : targets ≠ [])
    (hnodup : targets.Nodup) : ∃ kept,
      message.KeptFor targets now k.issued (k.keepAll now e targets).issued kept ∧
      (k.keepAll now e targets).offline = k.offline ++ kept ∧
      (k.keepAll now e targets).assembler = some a' ∧
      (k.keepAll now e targets).given = k.given ++ [e] := by
  rw [keepAll_of_complete hfragment hjoining hcopy hreceive hwhole htargets]
  obtain ⟨joined, hjoined⟩ : ∃ joined : Stock, joined
      = { k with assembler := some a', copy := .whole message, given := k.given ++ [e] } := ⟨_, rfl⟩
  obtain ⟨kept, hkept, -, hoffline⟩ := keptFor_keepAll hwhole now hnodup joined
  obtain ⟨offline, issued, hleft⟩ := keepAll_eq_of_whole hwhole now targets joined
  rw [← hjoined]
  refine ⟨kept, ?_, ?_, ?_, ?_⟩
  · rwa [hjoined] at hkept ⊢
  · rwa [hjoined] at hoffline ⊢
  · rw [hleft, hjoined]
  · rw [hleft, hjoined]

end Fragment

end Stock

/-- What keeping a message depends on at a shard. -/
def Errand.stock (s : Errand) (shard : Nat) : Stock :=
  { offline := s.exchange.services.offline, issued := s.exchange.issued
    assembler := s.exchange.assembler? shard, copy := s.copy, given := s.given }

namespace Routing

/-- The stock of a shard is another one, and nothing else was done. -/
structure Stored (s : Errand) (shard : Nat) (k : Stock) (s' : Errand) : Prop where
  stock : s'.stock shard = k
  view : s'.exchange.view = { s.exchange.view with offline := k.offline, issued := k.issued }
  others : ∀ id, id ≠ shard → s'.exchange.assembler? id = s.exchange.assembler? id

variable {s s' s'' : Errand} {shard : Nat} {k k' : Stock} {e message : Envelope} {target : String}

theorem stored_refl (s : Errand) (shard : Nat) : Stored s shard (s.stock shard) s :=
  ⟨rfl, rfl, fun _ _ => rfl⟩

theorem Stored.trans (h : Stored s shard k s') (h' : Stored s' shard k' s'') :
    Stored s shard k' s'' where
  stock := h'.stock
  view := h'.view.trans (by rw [h.view])
  others id hne := (h'.others id hne).trans (h.others id hne)

theorem stored_keep (s : Errand) (shard : Nat) (e : Envelope) (target id : String) :
    Stored s shard { s.stock shard with
      offline := s.exchange.services.offline.persist id e.sender target e.content s.exchange.now }
      { s with exchange := keep s.exchange shard e target id } := by
  have hassembler : (keep s.exchange shard e target id).assembler? = s.exchange.assembler? :=
    Exchange.assembler?_mapCounters ..
  refine ⟨?_, view_keep .., fun id _ => congrFun hassembler id⟩
  exact congrArg (fun assembler => Stock.mk _ _ assembler _ _) (congrFun hassembler shard)

/-- A message that was resolved is kept. -/
theorem stored_put (hwell : s'.exchange.services.outages = [])
    (h : Runs (resolve shard e) s (some message) s') (target : String) :
    Ends (store shard e target) s
      (Stored s' shard ((s'.stock shard).put s'.exchange.now message target)) := by
  refine Runs.bind_ends h ?_
  rw [Stock.put]
  dsimp only
  by_cases hsignal : message.contentKind.isCallSignal = true
  · rw [if_pos hsignal, if_pos hsignal]
    exact .of_runs (a := ()) rfl (stored_refl s' shard)
  · rw [if_neg hsignal, if_neg hsignal]
    by_cases hid : message.messageId = ""
    · rw [if_pos hid, if_pos hid, if_pos hid]
      -- an identity is drawn first
      refine Ends.freshId_bind ?_
      obtain ⟨drawn, hdrawn⟩ : ∃ drawn, drawn = { s' with exchange := s'.exchange.freshId.2 } :=
        ⟨_, rfl⟩
      rw [← hdrawn]
      have hwell' : drawn.exchange.services.outages = [] := by
        rw [hdrawn]
        exact hwell
      refine Runs.bind_ends (runs_call hwell' .persist) ?_
      have hdraw : Stored s' shard { s'.stock shard with issued := s'.exchange.issued + 1 } drawn := by
        rw [hdrawn]
        exact ⟨rfl, rfl, fun _ _ => rfl⟩
      have hkeep := hdraw.trans
        (stored_keep drawn shard message target (Exchange.formatId s'.exchange.issued))
      rw [hdrawn] at hkeep ⊢
      exact .of_runs (a := ()) rfl hkeep
    · rw [if_neg hid, if_neg hid, if_neg hid]
      refine Ends.pure_bind ?_
      refine Runs.bind_ends (runs_call hwell .persist) ?_
      exact .of_runs (a := ()) rfl (stored_keep s' shard message target message.messageId)

/-- Where nothing can be resolved, nothing is kept. -/
theorem stored_of_unresolved (h : Runs (resolve shard e) s none s') (target : String) :
    Ends (store shard e target) s (· = s') :=
  Runs.bind_ends h (.of_runs (a := ()) rfl rfl)

/-- The shard joins other fragments than before. -/
theorem stored_setAssembler {t : Shard} (ht : s.exchange.shard? shard = some t) {a : Assembler}
    (hlimits : a.limits = t.assembler.limits) (copy : Copy) (given : List Envelope) :
    Stored s shard { s.stock shard with assembler := some a, copy, given }
      { exchange := s.exchange.mapShard shard fun t => { t with assembler := a }, copy, given } := by
  refine ⟨?_, ?_, fun id hne => ?_⟩
  · have hassembler : (s.exchange.mapShard shard fun t => { t with assembler := a }).assembler? shard
        = some a := by
      rw [Exchange.assembler?, Exchange.shard?_mapShard, if_pos rfl, ht]
      rfl
    exact congrArg (fun assembler => Stock.mk _ _ assembler _ _) hassembler
  · have hbare : ({ t with assembler := a } : Shard).bare = t.bare := by
      rw [Shard.bare, Shard.bare, hlimits]
    refine (Exchange.view_mapShard ht hbare).trans ?_
    have htraffic : ({ t with assembler := a } : Shard).traffic = s.exchange.view.traffic shard :=
      (Exchange.traffic_of_shard? ht).symm
    rw [htraffic, View.setTraffic_self]
    rfl
  · rw [Exchange.assembler?, Exchange.shard?_mapShard, if_neg hne]
    rfl

section Assemble

/-- What is given to the assembler is noted first. -/
theorem run_assemble (shard : Nat) (e : Envelope) (s : Errand) : (assemble shard e).run.run s
    = (step (.fault ∘ .fragment) fun x => match x.shard? shard with
        | none => (.error .missingMessageId, x)
        | some t =>
          ((t.assembler.receive x.now e).1, x.mapShard shard fun t' =>
            { t' with assembler := (t.assembler.receive x.now e).2 })).run.run
      { s with given := s.given ++ [e] } := rfl

variable {t : Shard} (ht : s.exchange.shard? shard = some t) {a : Assembler}

include ht

theorem runs_assemble {outcome : Outcome}
    (h : t.assembler.receive s.exchange.now e = (.ok outcome, a)) :
    Runs (assemble shard e) s outcome { s with
      exchange := s.exchange.mapShard shard fun t => { t with assembler := a }
      given := s.given ++ [e] } := by
  refine (run_assemble shard e s).trans (runs_step ?_)
  dsimp only
  rw [ht]
  dsimp only
  rw [h]

theorem run_assemble_of_error {fault : FragmentFault}
    (h : t.assembler.receive s.exchange.now e = (.error fault, a)) :
    (assemble shard e).run.run s = (.error (.fault (.fragment fault)), { s with
      exchange := s.exchange.mapShard shard fun t => { t with assembler := a }
      given := s.given ++ [e] }) := by
  refine (run_assemble shard e s).trans (run_step_of_error (.fault ∘ .fragment) ?_)
  dsimp only
  rw [ht]
  dsimp only
  rw [h]

end Assemble

section Fragment

variable {x : Exchange} {given : List Envelope} (hfragment : e.isFragment = true)

include hfragment

/-- The first target that is away has the fragment taken in. -/
theorem run_resolve_unresolved (x : Exchange) (given : List Envelope) (shard : Nat) :
    (resolve shard e).run.run { exchange := x, copy := .unresolved, given }
      = (assemble shard e >>= fun outcome => match outcome with
        | .complete message => do
          modify fun s => { s with copy := .whole message }
          return some message
        | .pending _ _ => return none).run.run { exchange := x, copy := .waiting, given } := by
  rw [resolve, hfragment]
  rfl

theorem ends_store_of_unresolved (hwell : x.services.outages = []) (shard : Nat)
    (target : String) : Ends (store shard e target) { exchange := x, copy := .unresolved, given }
      (Stored { exchange := x, copy := .unresolved, given } shard
        ((Errand.stock { exchange := x, copy := .unresolved, given } shard).keep x.now e
          target)) := by
  cases ht : x.shard? shard with
  | none =>
      -- where there is no shard, the fault is one for a fragment, and nothing is kept
      have hnone : x.assembler? shard = none := by
        rw [Exchange.assembler?, ht]
        rfl
      have hassemble : (assemble shard e).run.run { exchange := x, copy := .waiting, given }
          = (.error (.fault (.fragment .missingMessageId)),
            { exchange := x, copy := .waiting, given := given ++ [e] }) :=
        (run_assemble shard e _).trans
          (run_step_of_error (.fault ∘ .fragment) (by dsimp only; rw [ht]))
      have hresolve := (run_resolve_unresolved hfragment x given shard).trans
        (run_bind_of_error hassemble _)
      refine .of_fault (run_bind_of_error hresolve _) ?_
      rw [Stock.keep, Stock.resolve, hfragment]
      simp only [Errand.stock, hnone, Bool.not_true, Bool.false_eq_true, if_false]
      exact ⟨by rw [Errand.stock, hnone], rfl, fun _ _ => rfl⟩
  | some t =>
      have hsome : x.assembler? shard = some t.assembler := by
        rw [Exchange.assembler?, ht]
        rfl
      cases hreceive : t.assembler.receive x.now e with
      | mk result a =>
          -- an assembler that was given a fragment has its limits still, so the view is the same
          have hlimits : a.limits = t.assembler.limits := by
            have h := t.assembler.limits_receive x.now e
            rwa [hreceive] at h
          have hstored := fun copy => stored_setAssembler
            (s := { exchange := x, copy := .unresolved, given }) ht hlimits copy (given ++ [e])
          rw [Stock.keep, Stock.resolve, hfragment]
          simp only [Errand.stock, hsome, Bool.not_true, Bool.false_eq_true, if_false, hreceive]
          cases result with
          | error fault =>
              have hassemble := run_assemble_of_error
                (s := { exchange := x, copy := .waiting, given }) ht hreceive
              have hresolve := (run_resolve_unresolved hfragment x given shard).trans
                (run_bind_of_error hassemble _)
              exact .of_fault (run_bind_of_error hresolve _) (hstored .waiting)
          | ok outcome =>
              have hassemble := runs_assemble
                (s := { exchange := x, copy := .waiting, given }) ht hreceive
              cases outcome with
              | pending received total =>
                  have hresolve := (run_resolve_unresolved hfragment x given shard).trans
                    (hassemble.bind rfl)
                  refine (stored_of_unresolved hresolve target).mono fun s' hs' => ?_
                  rw [hs']
                  exact hstored .waiting
              | complete message =>
                  have hresolve := (run_resolve_unresolved hfragment x given shard).trans
                    (hassemble.bind rfl)
                  have hjoined := hstored (.whole message)
                  refine (stored_put hwell hresolve target).mono fun s' hs' => ?_
                  rw [hjoined.stock] at hs'
                  exact hjoined.trans hs'

end Fragment

/-- **Keeping a message for a target does to the stock of the shard what it is to do.** -/
theorem ends_store (hwell : s.exchange.services.outages = []) (shard : Nat) (e : Envelope)
    (target : String) : Ends (store shard e target) s
      (Stored s shard ((s.stock shard).keep s.exchange.now e target)) := by
  by_cases hfragment : e.isFragment = true
  · obtain ⟨x, copy, given⟩ := s
    cases copy with
    | unresolved => exact ends_store_of_unresolved hfragment hwell shard target
    | waiting =>
        have hresolve : Runs (resolve shard e) { exchange := x, copy := .waiting, given } none
            { exchange := x, copy := .waiting, given } := by
          rw [resolve, hfragment]
          rfl
        refine (stored_of_unresolved hresolve target).mono fun s' hs' => ?_
        rw [hs', Stock.keep, Stock.resolve, hfragment]
        exact stored_refl _ shard
    | whole message =>
        have hresolve : Runs (resolve shard e) { exchange := x, copy := .whole message, given }
            (some message) { exchange := x, copy := .whole message, given } := by
          rw [resolve, hfragment]
          rfl
        -- the fragment was joined for a target before
        rw [Stock.keep, Stock.resolve, hfragment]
        exact stored_put hwell hresolve target
  · have hwhole : e.isFragment = false := Bool.eq_false_iff.2 hfragment
    rw [Stock.keep_of_whole hwhole]
    exact stored_put hwell (runs_resolve shard hwhole) target

end Routing

end Switchboard
