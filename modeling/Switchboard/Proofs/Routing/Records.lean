import Switchboard.Proofs.Routing.Bringing
import Switchboard.Proofs.Routing.Stock

/-!
# What records are of

Whatever becomes of a task, what is kept for those who are away while it is routed is kept of the
message it brings, or, if this is a fragment, of the message that the fragment completes at the shard
(`records_routeTask`). A fragment is given to the shard's assembler once for all targets, and the
message that came of it is remembered in the errand, so the errand has to be followed and not only
the exchange: `Kempt` is what holds of it on the way.
-/

namespace Switchboard

namespace Exchange

/-- What is kept for those who are away when a message is routed at a shard: the message, or what it
completes there if it is a fragment. -/
def KeepsAs (x : Exchange) (shard : Nat) (e message : Envelope) : Prop :=
  e.isFragment = false ∧ message = e ∨
    e.isFragment = true ∧ ∃ a, x.assembler? shard = some a ∧
      (a.receive x.now e).1 = .ok (.complete message)

/-- From one exchange to a later one, records were kept of what a message stands for at a shard, and
of nothing else. -/
structure Records (x : Exchange) (shard : Nat) (e : Envelope) (y : Exchange) : Prop where
  issued : x.issued ≤ y.issued
  kept : ∃ kept, y.services.offline = x.services.offline ++ kept ∧ ∀ record ∈ kept,
    ∃ message, x.KeepsAs shard e message ∧
      message.Kept record.target x.now x.issued y.issued [record]

variable {x y z : Exchange} {shard : Nat} {e message : Envelope} {id : String}

/-- At first nothing was kept. -/
theorem Records.refl (x : Exchange) (shard : Nat) (e : Envelope) : x.Records shard e x where
  issued := Nat.le_refl _
  kept := ⟨[], (List.append_nil _).symm, fun _ h => absurd h List.not_mem_nil⟩

/-- Nothing more was kept. -/
theorem Records.of_offline (h : x.Records shard e y)
    (hoffline : z.services.offline = y.services.offline) (hissued : y.issued ≤ z.issued) :
    x.Records shard e z where
  issued := Nat.le_trans h.issued hissued
  kept := by
    obtain ⟨kept, heq, hkept⟩ := h.kept
    refine ⟨kept, hoffline.trans heq, fun record hrecord => ?_⟩
    obtain ⟨message, hmessage, hof⟩ := hkept record hrecord
    exact ⟨message, hmessage, hof.mono (Nat.le_refl _) hissued⟩

/-- One more record was kept. -/
theorem Records.persist (h : x.Records shard e y) (hmessage : x.KeepsAs shard e message)
    (hlasting : message.contentKind.isCallSignal = false)
    (hnamed : message.messageId ≠ "" → id = message.messageId)
    (hfresh : message.messageId = "" → ∃ n, x.issued ≤ n ∧ n < y.issued ∧ id = formatId n)
    (target : String) : x.Records shard e
      { y with
        services.offline :=
          y.services.offline.persist id message.sender target message.content x.now } where
  issued := h.issued
  kept := by
    obtain ⟨kept, heq, hkept⟩ := h.kept
    refine ⟨_, (congrArg (OfflineStore.persist · id message.sender target message.content x.now)
      heq).trans (List.append_assoc ..), fun record hrecord => ?_⟩
    rcases List.mem_append.1 hrecord with hold | hnew
    · exact hkept record hold
    · obtain rfl := List.mem_singleton.1 hnew
      refine ⟨message, hmessage, fun hsignal => ?_, fun _ => ⟨id, hnamed, hfresh, rfl⟩⟩
      -- it is no call signal, so it is one record
      exact absurd (hlasting.symm.trans hsignal) Bool.false_ne_true

end Exchange

namespace Routing

open Exchange

/-- What holds of the errand that brings a message from an exchange to its targets, at a shard. -/
structure Kempt (x : Exchange) (shard : Nat) (e : Envelope) (s : Errand) : Prop extends
    x.Records shard e s.exchange where
  now : s.exchange.now = x.now
  /-- Until the message is asked for, nothing is given to the assembler. -/
  joining : s.copy = .unresolved → s.exchange.assembler? shard = x.assembler? shard
  whole : ∀ message, s.copy = .whole message → e.isFragment = true → x.KeepsAs shard e message

variable {x y : Exchange} {shard : Nat} {e message : Envelope} {s : Errand}

/-- An errand starts with nothing kept and nothing asked for. -/
theorem kempt_start (x : Exchange) (shard : Nat) (e : Envelope) :
    Kempt x shard e { exchange := x, copy := .unresolved } where
  toRecords := .refl x shard e
  now := rfl
  joining _ := rfl
  whole _ h := Copy.noConfusion h

/-- What is nothing to the assemblers and keeps nothing. -/
theorem Kempt.of_exchange (h : Kempt x shard e s)
    (hoffline : y.services.offline = s.exchange.services.offline)
    (hissued : s.exchange.issued ≤ y.issued) (hnow : y.now = s.exchange.now)
    (hassembler : y.assembler? = s.exchange.assembler?) :
    Kempt x shard e { s with exchange := y } where
  toRecords := h.toRecords.of_offline hoffline hissued
  now := hnow.trans h.now
  joining hcopy := (congrFun hassembler shard).trans (h.joining hcopy)
  whole := h.whole

/-- The message is asked for, and what is kept from then on is known. -/
theorem Kempt.resolved (h : Kempt x shard e s) {copy : Copy} {given : List Envelope}
    (hoffline : y.services.offline = s.exchange.services.offline)
    (hissued : y.issued = s.exchange.issued) (hnow : y.now = s.exchange.now)
    (hcopy : copy ≠ .unresolved)
    (hwhole : ∀ message, copy = .whole message → x.KeepsAs shard e message) :
    Kempt x shard e { exchange := y, copy, given } where
  toRecords := h.toRecords.of_offline hoffline (Nat.le_of_eq hissued.symm)
  now := hnow.trans h.now
  joining hunresolved := absurd hunresolved hcopy
  whole message hmessage _ := hwhole message hmessage

/-- Finding out what is kept keeps nothing, and finds what the message stands for. -/
theorem kempt_resolve (h : Kempt x shard e s) :
    Kempt x shard e ((resolve shard e).run.run s).2 ∧
      ∀ message, ((resolve shard e).run.run s).1 = .ok (some message) →
        x.KeepsAs shard e message := by
  by_cases hfragment : e.isFragment = true
  · obtain ⟨z, copy, given⟩ := s
    cases copy with
    | waiting =>
        -- it was asked for before and is not whole, so it is kept for nobody
        rw [resolve, hfragment]
        refine ⟨h, fun message hmessage => ?_⟩
        cases hmessage
    | whole m =>
        -- it was joined for another target, when the assembler was as it is for the task
        rw [resolve, hfragment]
        refine ⟨h, fun message hmessage => ?_⟩
        obtain rfl := Option.some.inj (Except.ok.inj hmessage)
        exact h.whole m rfl hfragment
    | unresolved =>
        rw [run_resolve_unresolved hfragment, run_bind]
        cases ht : z.shard? shard with
        | none =>
            -- a shard that is not there refuses every fragment
            have hassemble : (assemble shard e).run.run { exchange := z, copy := .waiting, given }
                = (.error (.fault (.fragment .missingMessageId)),
                  { exchange := z, copy := .waiting, given := given ++ [e] }) :=
              (run_assemble shard e _).trans
                (run_step_of_error (.fault ∘ .fragment) (by dsimp only; rw [ht]))
            rw [hassemble]
            exact ⟨h.resolved rfl rfl rfl Copy.noConfusion fun _ h => Copy.noConfusion h,
              fun _ hmessage => by cases hmessage⟩
        | some t =>
            -- nothing was given to the assembler yet, so it is the one that the task found
            have hbefore : x.assembler? shard = some t.assembler := by
              rw [← h.joining rfl, assembler?]
              show (z.shard? shard).map _ = _
              rw [ht]
              rfl
            cases hreceive : t.assembler.receive z.now e with
            | mk result a =>
                cases result with
                | error fault =>
                    rw [run_assemble_of_error
                      (s := { exchange := z, copy := .waiting, given }) ht hreceive]
                    exact ⟨h.resolved rfl rfl rfl Copy.noConfusion fun _ h => Copy.noConfusion h,
                      fun _ hmessage => by cases hmessage⟩
                | ok outcome =>
                    rw [runs_assemble (s := { exchange := z, copy := .waiting, given }) ht hreceive]
                    cases outcome with
                    | pending received total =>
                        exact ⟨h.resolved rfl rfl rfl Copy.noConfusion
                            fun _ h => Copy.noConfusion h,
                          fun _ hmessage => by cases hmessage⟩
                    | complete m =>
                        -- the fragment completes the message at the time of the task
                        have hcompletes : x.KeepsAs shard e m := by
                          refine Or.inr ⟨hfragment, t.assembler, hbefore, ?_⟩
                          have hnow : z.now = x.now := h.now
                          rw [← hnow, hreceive]
                        refine ⟨h.resolved rfl rfl rfl Copy.noConfusion fun m' hm' => ?_,
                          fun m' hm' => ?_⟩
                        · obtain rfl := Copy.whole.inj hm'
                          exact hcompletes
                        · obtain rfl := Option.some.inj (Except.ok.inj hm')
                          exact hcompletes
  · have hwhole : e.isFragment = false := Bool.eq_false_iff.2 hfragment
    rw [runs_resolve shard hwhole]
    refine ⟨h, fun message hmessage => ?_⟩
    obtain rfl := Option.some.inj (Except.ok.inj hmessage)
    exact Or.inl ⟨hwhole, rfl⟩

/-- What the parts of routing are to keep. -/
def Kempts (x : Exchange) (shard : Nat) (e : Envelope) (s s' : Errand) : Prop :=
  Kempt x shard e s → Kempt x shard e s'

/-- Asking services and drawing identities keep nothing. -/
theorem asks_kempts (x : Exchange) (shard : Nat) (e : Envelope) : Asks (Kempts x shard e) where
  refl _ h := h
  trans h h' hs := h' (h hs)
  attempt s call hs := by
    obtain ⟨n, hn⟩ := s.exchange.attempt_snd call
    rw [hn]
    exact hs.of_exchange rfl (Nat.le_refl _) rfl rfl
  fresh _ hs := hs.of_exchange rfl (Nat.le_succ _) rfl rfl

/-- A message that stands for the one that is routed is kept. -/
theorem leads_kempts_persist (hmessage : x.KeepsAs shard e message)
    (hlasting : message.contentKind.isCallSignal = false) {id : String}
    (hnamed : message.messageId ≠ "" → id = message.messageId)
    (hfresh : message.messageId = "" →
      ∃ n, x.issued ≤ n ∧ n < s.exchange.issued ∧ id = formatId n) (target : String) :
    Leads (Kempts x shard e) (do
      call .persist
      change fun y =>
        let y := { y with
          services.offline := y.services.offline.persist id message.sender target
            message.content y.now }
        y.mapCounters shard fun c => { c with persisted := c.persisted + 1 }) s := by
  have hasks := asks_kempts x shard e
  refine hasks.bind (leads_call hasks _) fun _ s' hcall => leads_change fun hs => ?_
  -- the call may have changed which outage is next, and nothing else
  obtain ⟨services, rfl⟩ := eq_of_call hcall
  have hnow : s.exchange.now = x.now := hs.now
  have hrecord := hs.toRecords.persist hmessage hlasting hnamed hfresh target
  refine ⟨?_, hs.now, fun hcopy => ?_, hs.whole⟩
  · dsimp only
    rw [hnow]
    exact hrecord.of_offline rfl (Nat.le_refl _)
  · refine Eq.trans ?_ (hs.joining hcopy)
    exact congrFun (assembler?_mapCounters ..) shard

/-- Keeping a message for a target keeps what the message stands for. -/
theorem leads_kempts_store (s : Errand) (target : String) :
    Leads (Kempts x shard e) (store shard e target) s := by
  intro hs
  have hasks := asks_kempts x shard e
  obtain ⟨hafter, hstands⟩ := kempt_resolve hs
  rw [store, run_bind]
  cases hresolve : (resolve shard e).run.run s with
  | mk result s' =>
      rw [hresolve] at hafter hstands
      cases result with
      | error stop => exact hafter
      | ok message =>
          cases message with
          | none => exact hafter
          | some message =>
              have hmessage := hstands message rfl
              dsimp only
              split
              · exact hafter
              · next hlasting =>
                  have hlasting := Bool.eq_false_iff.2 hlasting
                  split
                  · next hid =>
                      refine hasks.bind (leads_freshId hasks) (fun id s'' hfresh => ?_) hafter
                      obtain ⟨hid', rfl⟩ := Prod.mk.inj hfresh
                      refine leads_kempts_persist hmessage hlasting (fun h => absurd hid h)
                        (fun _ => ⟨_, hafter.issued, Nat.lt_succ_self _, ?_⟩) target
                      exact (Except.ok.inj hid').symm
                  · next hid =>
                      refine hasks.bind (leads_pure hasks _) (fun id s'' hpure => ?_) hafter
                      obtain ⟨hid', rfl⟩ := Prod.mk.inj hpure
                      refine leads_kempts_persist hmessage hlasting
                        (fun _ => (Except.ok.inj hid').symm) (fun h => absurd h hid) target

/-- Nothing else that an errand does keeps anything. -/
theorem carries_kempts (x : Exchange) (shard : Nat) (e : Envelope) :
    Carries (fun _ => True) (Kempts x shard e) shard e where
  toAsks := asks_kempts x shard e
  count s id f hs := hs.of_exchange rfl (Nat.le_refl _) rfl (assembler?_mapCounters ..)
  sendTo s session frame _ hs := by
    rcases s.exchange.sendTo_snd_cases session frame with heq | ⟨c, c', hc, hsend, heq⟩
    · rw [heq]
      exact hs
    · rw [heq]
      exact hs.of_exchange rfl (Nat.le_refl _) rfl rfl
  handOver s owner target frame _ hs := by
    rw [handOver]
    cases ht : s.exchange.shard? owner with
    | none => exact hs
    | some t =>
        dsimp only
        cases t.forward.offer { target, frame } with
        | error refusal =>
            cases refusal with
            | full => exact hs
            | closed => exact hs
        | ok forward =>
            refine hs.of_exchange rfl (Nat.le_refl _) rfl (assembler?_mapShard_of_same ?_ _ _)
            exact fun _ => rfl
  publish {s event y} _ h hs := by
    rw [Exchange.publish] at h
    split at h
    · split at h
      · obtain rfl := Option.some.inj h
        exact hs.of_exchange rfl (Nat.le_refl _) rfl rfl
      · cases h
    · cases h
  store s target := leads_kempts_store s target

/-- Prompts are not kept. -/
theorem rests_offline : Rests fun x y =>
    y.services.offline = x.services.offline ∧ x.issued ≤ y.issued where
  refl _ := ⟨rfl, Nat.le_refl _⟩
  trans h h' := ⟨h'.1.trans h.1, Nat.le_trans h.2 h'.2⟩
  attempt x call := by
    obtain ⟨n, hn⟩ := x.attempt_snd call
    rw [hn]
    exact ⟨rfl, Nat.le_refl _⟩
  fresh _ := ⟨rfl, Nat.le_succ _⟩
  assemble _ _ _ := ⟨rfl, Nat.le_refl _⟩
  ask _ _ := ⟨rfl, Nat.le_refl _⟩

theorem run_route_of_prompt {task : Task} (h : IsPrompt x task) (shard : Nat) :
    (route shard task).run.run { exchange := x, copy := .unresolved }
      = (routeToAssistant shard task.envelope).run.run { exchange := x, copy := .unresolved } := by
  rw [route, h.inbound]
  simp only [h.addressed, Bool.false_eq_true, if_false, h.direct]
  refine (run_exchange_bind _ _).trans ?_
  simp only [h.assistant, if_true]

end Routing

namespace Exchange

/-- **Whatever is kept while a task is routed is kept of its message**, or of the message that it
completes if it is a fragment. -/
theorem records_routeTask (x : Exchange) (shard : Nat) (task : Task) :
    x.Records shard task.envelope (x.routeTask shard task) := by
  by_cases hprompt : Routing.IsPrompt x task
  · have hkept := Routing.keeps_routeToAssistant Routing.rests_offline
      (s := { exchange := x, copy := .unresolved }) shard task.envelope
    rw [Routing.Keeps, ← Routing.run_route_of_prompt hprompt] at hkept
    rw [routeTask]
    split
    · next hrun =>
        rw [hrun] at hkept
        exact (Records.refl x shard _).of_offline hkept.1 hkept.2
    · next hrun =>
        rw [hrun] at hkept
        exact (Records.refl x shard _).of_offline hkept.1 hkept.2
  · -- whatever frames are sent, none of them is kept
    have hsuits : Routing.Suits (fun _ => True) x shard task :=
      ⟨fun _ => trivial, fun _ _ _ _ _ _ _ _ _ _ => trivial⟩
    obtain ⟨s, hs, heq⟩ := Routing.leads_routeTask
      (Routing.carries_kempts x shard task.envelope) hsuits fun h => absurd h hprompt
    rw [heq]
    exact (hs (Routing.kempt_start x shard task.envelope)).toRecords

end Exchange

end Switchboard
