import Switchboard.Proofs.Membership.Books

/-!
# Loads

A connection is charged to the shard that it was admitted to until it is taken off the load: while it
is awaited, while a registration has not come to the registry, while it is held there, and while a
call that took it out has not done with it. It is in one of these places at a time, so it is closed
once, after it left the registry, and taken off once, from a load that counts it.

`Sound` says that the books balance with these charges. Every move keeps it (`sound_act`), so every
history does (`sound_run`), and `load_exact` is read off it.
-/

namespace Switchboard.Turnstile

/-- The charges of the connections that are awaited. -/
def waiting (w : Turnstile) : List Charge :=
  w.awaited.entries.map fun (session, shard) => .new shard session

/-- The charges of all connections. -/
def charges (w : Turnstile) : List Charge :=
  w.exchange.held ++ (w.calls.flatMap Call.charges ++ w.waiting)

/-- A session was given out. -/
def Known (w : Turnstile) (session : Session) : Prop :=
  (w.exchange.books.account session).isSome ∨ (w.admitted.get? session).isSome ∨
    session ∈ w.begun ∨ session ∈ w.failed

/-- What holds whatever the calls under way have done. -/
structure Sound (w : Turnstile) : Prop where
  balances : w.exchange.books.Balances w.charges
  /-- Whoever is charged is charged to the shard that it was admitted to. -/
  home : ∀ l ∈ w.charges, w.admitted.get? l.session = some l.shard
  /-- Sessions that are still to be given out belong to nobody. -/
  fresh : ∀ session, w.Known session → session < w.exchange.nextSession

/-- Nobody was ever admitted. -/
structure Unused (x : Exchange) : Prop where
  balances : x.books.Balances []
  held : x.held = []
  account : ∀ session, x.books.account session = none

theorem unused_new (config : Config) (services : Services) (now : Moment) :
    Unused (.new config services now) := by
  have hheld : (Exchange.new config services now).held = [] := by
    refine List.flatMap_eq_nil_iff.2 fun s hs => ?_
    obtain ⟨id, -, rfl⟩ := List.mem_map.1 hs
    rfl
  refine ⟨⟨List.nodup_nil, ?_, ?_, fun n e he => ?_⟩, hheld, fun _ => rfl⟩
  · exact fun l hl => absurd hl List.not_mem_nil
  · exact fun l hl => absurd hl List.not_mem_nil
  · simp only [Exchange.books, Exchange.new, Pool.new, List.map_map, List.getElem?_map,
      Option.map_eq_some_iff] at he
    obtain ⟨id, hid, rfl⟩ := he
    obtain ⟨hlt, rfl⟩ := List.getElem?_eq_some_iff.1 hid
    rw [List.getElem_range]
    rfl

variable {w : Turnstile} {x : Exchange} {session : Session} {shard : Nat}

theorem sound_start (hx : Unused x) : (start x).Sound := by
  have hcharges : (start x).charges = [] := by
    rw [charges, start, Lobby.start, hx.held]
    rfl
  refine ⟨hcharges ▸ hx.balances, fun l hl => ?_, fun session hknown => ?_⟩
  · rw [hcharges] at hl
    cases hl
  · rcases hknown with hknown | hknown | hknown | hknown
    · rw [show (start x).exchange.books.account session = none from hx.account session] at hknown
      cases hknown
    · cases hknown
    · cases hknown
    · cases hknown

/-- Whoever is charged has a connection that is kept under its session. -/
theorem Sound.connection (hw : w.Sound) {l : Charge} (hl : l ∈ w.charges) :
    ∃ c, w.exchange.connection? l.session = some c ∧ c.session = l.session := by
  obtain ⟨c, hc, heq⟩ := Option.map_eq_some_iff.1 (hw.balances.account l hl)
  exact ⟨c, hc, congrArg Prod.fst heq⟩

/-- The next session to be given out is nobody's. -/
theorem Sound.not_known (hw : w.Sound) : ¬ w.Known w.exchange.nextSession :=
  fun h => Nat.lt_irrefl _ (hw.fresh _ h)

theorem Sound.ne_nextSession (hw : w.Sound) {l : Charge} (hl : l ∈ w.charges) :
    l.session ≠ w.exchange.nextSession := by
  intro heq
  refine hw.not_known (Or.inr (Or.inl ?_))
  rw [← heq, hw.home l hl]
  rfl

/-! ## Admission -/

/-- Who is admitted is awaited. -/
theorem waiting_insert (hnew : ¬ w.Known session) (shard : Nat) (y : Exchange) :
    ({ w with exchange := y, admitted := w.admitted.insert session shard } : Turnstile).waiting
      = w.waiting ++ [.new shard session] := by
  simp only [Known, not_or] at hnew
  obtain ⟨-, hadmitted, hsettled⟩ := hnew
  have herase : w.admitted.erase session = w.admitted :=
    Table.erase_of_get?_eq_none (Option.not_isSome_iff_eq_none.1 hadmitted)
  have hentries : (w.admitted.insert session shard).entries
      = w.admitted.entries ++ [(session, shard)] :=
    congrArg (fun t : Table Session Nat => t.entries ++ [(session, shard)]) herase
  show ((w.admitted.insert session shard).entries.filter _).map _ = _
  rw [hentries, List.filter_append, List.filter_cons_of_pos (by simpa using hsettled),
    List.filter_nil, List.map_append]
  rfl

theorem sound_accept (hw : w.Sound) (identity : String) (remoteAddress : Option SocketAddress)
    (capacity : Nat) : (w.act (.accept identity remoteAddress capacity)).Sound := by
  rw [act, Lobby.accept]
  rcases Exchange.balances_accept hw.balances (fun _ => hw.ne_nextSession) identity remoteAddress
      capacity with
    ⟨y, heq, hheld, hbalances, haccount, hnext⟩ | ⟨y, shard, heq, hheld, hbalances, haccount, hnext⟩
  · rw [heq]
    have hcharges : ({ w with exchange := y } : Turnstile).charges = w.charges := by
      rw [charges, hheld]
      rfl
    refine ⟨hcharges ▸ hbalances, hcharges ▸ hw.home, fun session hknown => ?_⟩
    rw [Known] at hknown
    dsimp only at hknown ⊢
    rw [haccount] at hknown
    rw [hnext]
    exact hw.fresh session hknown
  · rw [heq]
    have hcharges : ({ w with
        exchange := y
        admitted := w.admitted.insert w.exchange.nextSession shard } : Turnstile).charges.Perm
          (.new shard w.exchange.nextSession :: w.charges) := by
      rw [charges, waiting_insert hw.not_known, hheld, ← List.append_assoc, ← List.append_assoc, charges,
        ← List.append_assoc]
      exact List.perm_append_singleton ..
    refine ⟨hbalances.perm hcharges.symm, fun l hl => ?_, fun session hknown => ?_⟩
    · rw [Table.get?_insert]
      rcases List.mem_cons.1 (hcharges.subset hl) with rfl | hl
      · exact if_pos rfl
      · rw [if_neg (hw.ne_nextSession hl)]
        exact hw.home l hl
    · -- whoever is known now was known before, or is the one who was admitted
      rw [Known] at hknown
      dsimp only at hknown ⊢
      rw [hnext]
      by_cases hsession : session = w.exchange.nextSession
      · exact Nat.lt_succ_of_le (Nat.le_of_eq hsession)
      · rw [haccount, Table.get?_insert, if_neg hsession] at hknown
        have hold : w.exchange.books.opened.account session = w.exchange.books.account session :=
          if_neg hsession
        rw [hold] at hknown
        exact Nat.lt_succ_of_lt (hw.fresh session hknown)

/-! ## Registrations that begin, and clients that are given up -/

/-- Who is awaited no longer is charged elsewhere or not at all. -/
theorem waiting_perm (h : w.awaited.get? session = some shard) (w' : Turnstile)
    (hadmitted : w'.admitted = w.admitted)
    (hsettled : ∀ σ, (σ ∉ w'.begun ∧ σ ∉ w'.failed) ↔
      (σ ∉ w.begun ∧ σ ∉ w.failed) ∧ σ ≠ session) :
    w.waiting.Perm (.new shard session :: w'.waiting) := by
  have herase : w'.awaited.entries = (w.awaited.erase session).entries := by
    show w'.admitted.entries.filter _ = (w.admitted.entries.filter _).filter _
    rw [List.filter_filter, hadmitted]
    refine List.filter_congr fun e _ => ?_
    rw [Bool.eq_iff_iff]
    simp only [decide_eq_true_eq, Bool.and_eq_true]
    exact (hsettled e.1).trans and_comm
  rw [waiting, waiting, herase]
  exact (Table.perm_of_get? h).map _

theorem mem_charges_of_awaited (h : w.awaited.get? session = some shard) :
    Charge.new shard session ∈ w.charges :=
  List.mem_append_right _ (List.mem_append_right _
    (List.mem_map.2 ⟨(session, shard), (Table.find?_eq_some_iff w.awaited.nodup).1 h, rfl⟩))

/-- Only calls and those who are awaited have changed, and nobody is new. -/
theorem Sound.of_perm (hw : w.Sound) {w' : Turnstile} (hexchange : w'.exchange = w.exchange)
    (hadmitted : w'.admitted = w.admitted) (hknown : ∀ σ, w'.Known σ → w.Known σ)
    (hperm : w'.charges.Perm w.charges) : w'.Sound := by
  refine ⟨?_, fun l hl => ?_, fun σ hσ => ?_⟩
  · rw [hexchange]
    exact hw.balances.perm hperm.symm
  · rw [hadmitted]
    exact hw.home l (hperm.subset hl)
  · rw [hexchange]
    exact hw.fresh σ (hknown σ hσ)

theorem sound_register (hw : w.Sound) (session : Session) : (w.act (.register session)).Sound := by
  rw [act]
  cases hawaited : w.awaited.get? session with
  | none => exact hw
  | some shard =>
      have hmem := mem_charges_of_awaited hawaited
      obtain ⟨c, hc, hsession⟩ := hw.connection hmem
      have hadmitted := admitted_of_awaited hawaited
      dsimp only at hc hsession ⊢
      rw [begin, hc]
      refine hw.of_perm rfl rfl ?_ ?_
      · rintro σ (hσ | hσ | hσ | hσ)
        · exact Or.inl hσ
        · exact Or.inr (Or.inl hσ)
        · rcases List.mem_cons.1 hσ with rfl | hσ
          · refine Or.inr (Or.inl ?_)
            rw [hadmitted]
            rfl
          · exact Or.inr (Or.inr (Or.inl hσ))
        · exact Or.inr (Or.inr (Or.inr hσ))
      · have hwaiting := waiting_perm hawaited { w with begun := session :: w.begun } rfl
          (fun σ => by simp only [List.mem_cons, not_or]; tauto)
        refine List.Perm.append_left _ ?_
        show List.Perm ((w.calls ++ [_]).flatMap Call.charges ++ _) _
        rw [List.flatMap_append, List.append_assoc]
        refine List.Perm.append_left _ (.trans (.of_eq ?_) hwaiting.symm)
        subst hsession
        rfl

theorem sound_fail (hw : w.Sound) (session : Session) : (w.act (.fail session)).Sound := by
  rw [act]
  cases hawaited : w.awaited.get? session with
  | none => exact hw
  | some shard =>
      have hwaiting := waiting_perm hawaited { w with failed := session :: w.failed } rfl
        (fun σ => by simp only [List.mem_cons, not_or]; tauto)
      have hcharges : w.charges.Perm (.new shard session :: ({ w with
          exchange := w.exchange.releaseLoad shard
          failed := session :: w.failed } : Turnstile).charges) := by
        rw [charges, charges, Exchange.held_releaseLoad]
        refine .trans ?_ List.perm_middle
        refine List.Perm.append_left _ (.trans ?_ List.perm_middle)
        exact List.Perm.append_left _ hwaiting
      have hadmitted := admitted_of_awaited hawaited
      refine ⟨?_, fun l hl => ?_, fun σ hσ => ?_⟩
      · dsimp only
        rw [Exchange.books_releaseLoad]
        exact (hw.balances.perm hcharges).release
      · exact hw.home l (hcharges.symm.subset (List.mem_cons_of_mem _ hl))
      · refine hw.fresh σ ?_
        rcases hσ with hσ | hσ | hσ | hσ
        · rw [Exchange.books_releaseLoad] at hσ
          exact Or.inl hσ
        · exact Or.inr (Or.inl hσ)
        · exact Or.inr (Or.inr (Or.inl hσ))
        · rcases List.mem_cons.1 hσ with rfl | hσ
          · refine Or.inr (Or.inl ?_)
            rw [hadmitted]
            rfl
          · exact Or.inr (Or.inr (Or.inr hσ))

theorem sound_unregister (hw : w.Sound) (session : Session) (shard : Nat) :
    (w.act (.unregister session shard)).Sound := by
  rw [act]
  split
  · rw [begin]
    split
    · refine hw.of_perm rfl rfl (fun _ => id) (.of_eq ?_)
      -- a call that has taken nobody out of a registry answers for nobody
      show _ ++ ((w.calls ++ [_]).flatMap Call.charges ++ _) = _
      rw [List.flatMap_append, List.flatMap_singleton, Call.charges]
      exact congrArg (fun l => w.exchange.held ++ (l ++ w.waiting)) (List.append_nil _)
    · exact hw
  · exact hw

/-! ## Steps of calls -/

/-- The charges, but for those of the call of a number, are not touched when that proceeds. -/
theorem charges_proceed {c : Call} {n : Nat} (hc : w.calls[n]? = some c) :
    ∃ rest, w.charges.Perm (w.exchange.held ++ (c.charges ++ rest)) ∧
      ∀ y returned next, ({ w with
          exchange := y, returned, calls := advance w.calls n next } : Turnstile).charges.Perm
        (y.held ++ (next.toList.flatMap Call.charges ++ rest)) := by
  obtain ⟨hlt, rfl⟩ := List.getElem?_eq_some_iff.1 hc
  refine ⟨(w.calls.eraseIdx n).flatMap Call.charges ++ w.waiting, ?_, fun y returned next => ?_⟩
  · have hcalls := (List.getElem_cons_eraseIdx_perm hlt).symm.flatMap_right Call.charges
    rw [List.flatMap_cons] at hcalls
    rw [charges, ← List.append_assoc w.calls[n].charges]
    exact List.Perm.append_left _ (hcalls.append_right _)
  · refine List.Perm.append_left _ ?_
    rw [← List.append_assoc]
    refine List.Perm.append_right _ ?_
    rw [← List.flatMap_append]
    cases next with
    | none => exact .refl _
    | some c' => exact (List.set_perm_cons_eraseIdx hlt c').flatMap_right Call.charges

theorem sound_proceed (hw : w.Sound) (n : Nat) : (w.act (.proceed n)).Sound := by
  rw [act, proceed]
  cases hc : w.calls[n]? with
  | none => exact hw
  | some c =>
      obtain ⟨rest, hold, hnew⟩ := charges_proceed hc
      have hbalances := hw.balances.perm hold
      have hsteps := Call.steps_perform hbalances
      have hperm := hnew (c.perform w.exchange).2
        (if (c.perform w.exchange).1.isNone then c.session :: w.returned else w.returned)
        (c.perform w.exchange).1
      refine ⟨(hsteps.balances hbalances).perm hperm.symm, fun l hl => ?_, fun σ hσ => ?_⟩
      · obtain ⟨l', hl', hsession, hshard⟩ := hsteps.charged (hperm.subset hl)
        rw [← hsession, ← hshard]
        exact hw.home l' (hold.symm.subset hl')
      · refine Nat.lt_of_lt_of_le (hw.fresh σ ?_) (Nat.le_of_eq hsteps.nextSession.symm)
        rcases hσ with hσ | hσ
        · rw [(hsteps.account hbalances σ).1] at hσ
          exact Or.inl hσ
        · exact Or.inr hσ

/-- **Every move keeps the books balanced.** -/
theorem sound_act (hw : w.Sound) (move : Move) : (w.act move).Sound := by
  cases move with
  | accept identity remoteAddress capacity => exact sound_accept hw ..
  | register session => exact sound_register hw session
  | fail session => exact sound_fail hw session
  | unregister session shard => exact sound_unregister hw session shard
  | proceed n => exact sound_proceed hw n
  | abandon => exact ⟨hw.balances, hw.home, hw.fresh⟩

theorem sound_run (hx : Unused x) (history : List Move) : ((start x).run history).Sound := by
  induction history using List.reverseRecOn with
  | nil => exact sound_start hx
  | append_singleton history move ih =>
      rw [run_append]
      exact sound_act ih move

/-! ## Closing and releasing -/

/-- The connection that the next step of a call closes, if that is the first time. -/
def Call.closes (c : Call) (x : Exchange) : Option Session :=
  match c.leaving with
  | some l => if l.isClosed = false ∧ (x.shut l.session).1 = true then some l.session else none
  | none => none

/-- The shard that the next step of a call takes a connection off the load of. -/
def Call.releases (c : Call) : Option Nat :=
  match c.leaving with
  | some l => if l.isClosed then some l.shard else none
  | none => none

/-- The connection that a move closes, if that is the first time. -/
def closes (w : Turnstile) : Move → Option Session
  | .proceed n => w.calls[n]?.bind fun c => c.closes w.exchange
  | _ => none

/-- The shard that a move takes a connection off the load of. -/
def releases (w : Turnstile) : Move → Option Nat
  | .proceed n => w.calls[n]?.bind Call.releases
  | .fail session => w.awaited.get? session
  | _ => none

/-- The connections that a history closes, each as often as closing it was the first time. -/
def closings (w : Turnstile) : List Move → List Session
  | [] => []
  | move :: history => (w.closes move).toList ++ (w.act move).closings history

theorem closings_append (w : Turnstile) (history : List Move) (move : Move) :
    w.closings (history ++ [move])
      = w.closings history ++ ((w.run history).closes move).toList := by
  induction history generalizing w with
  | nil => exact List.append_nil _
  | cons first history ih =>
      show (w.closes first).toList ++ (w.act first).closings (history ++ [move]) = _
      rw [ih, ← List.append_assoc]
      rfl

/-- What a call has on its hands is charged to it. -/
theorem mem_charges_of_leaving {c : Call} {n : Nat} {l : Charge} (hc : w.calls[n]? = some c)
    (hl : c.leaving = some l) : l ∈ w.calls.flatMap Call.charges := by
  refine List.mem_flatMap.2 ⟨c, List.mem_of_getElem? hc, List.mem_append_left _ ?_⟩
  rw [hl]
  exact List.mem_singleton.2 rfl

/-- Whom a move closes a call has on its hands. -/
theorem leaving_of_closes {move : Move} (h : w.closes move = some session) :
    ∃ n c l, move = .proceed n ∧ w.calls[n]? = some c ∧ c.leaving = some l ∧ l.isClosed = false ∧
      l.session = session := by
  cases move with
  | proceed n =>
      obtain ⟨c, hc, hcloses⟩ := Option.bind_eq_some_iff.1 h
      rw [Call.closes] at hcloses
      split at hcloses
      · next l hl =>
          split at hcloses
          · next hfirst => exact ⟨n, c, l, rfl, hc, hl, hfirst.1, Option.some.inj hcloses⟩
          · cases hcloses
      · cases hcloses
  | _ => cases h

/-- Whom a move takes off a load a call has on its hands, or is awaited. -/
theorem charged_of_releases {move : Move} (h : w.releases move = some shard) :
    ∃ l ∈ w.charges, l.shard = shard := by
  cases move with
  | proceed n =>
      obtain ⟨c, hc, hreleases⟩ := Option.bind_eq_some_iff.1 h
      rw [Call.releases] at hreleases
      split at hreleases
      · next l hl =>
          split at hreleases
          · have hmem := mem_charges_of_leaving hc hl
            exact ⟨l, List.mem_append_right _ (List.mem_append_left _ hmem),
              Option.some.inj hreleases⟩
          · cases hreleases
      · cases hreleases
  | fail session => exact ⟨.new shard session, mem_charges_of_awaited h, rfl⟩
  | _ => cases h

/-- Whom a call answers for is held by no shard. -/
theorem Sound.not_held (hw : w.Sound) {l : Charge} (hl : l ∈ w.calls.flatMap Call.charges)
    (shard : Nat) (identity : String) : w.exchange.holder? shard identity ≠ some l.session := by
  intro hholder
  have hheld := (Exchange.mem_held_iff hw.balances).2 ⟨identity, hholder⟩
  have hnodup := hw.balances.nodup
  rw [charges, List.map_append, List.nodup_append] at hnodup
  exact hnodup.2.2 _ (List.mem_map_of_mem hheld) _
    (List.mem_map_of_mem (List.mem_append_left _ hl)) rfl

/-- Who is closed stays closed. -/
theorem Sound.account_act (hw : w.Sound) (move : Move)
    (h : w.exchange.books.account session = some (session, true)) :
    (w.act move).exchange.books.account session = some (session, true) := by
  cases move with
  | accept identity remoteAddress capacity =>
      rw [act, Lobby.accept]
      rcases Exchange.balances_accept hw.balances (fun _ => hw.ne_nextSession) identity
          remoteAddress capacity with ⟨y, heq, -, -, haccount, -⟩ | ⟨y, shard, heq, -, -, haccount, -⟩
      · rw [heq]
        exact (congrFun haccount session).trans h
      · have hne : session ≠ w.exchange.nextSession := by
          rintro rfl
          exact hw.not_known (Or.inl (by rw [h]; rfl))
        rw [heq]
        exact (congrFun haccount session).trans ((if_neg hne).trans h)
  | register session' =>
      rw [act]
      split
      · exact (congrArg (fun x => Books.account (Exchange.books x) session)
          (exchange_begin w ..)).trans h
      · exact h
  | fail session' =>
      rw [act]
      split
      · dsimp only
        rw [Exchange.books_releaseLoad]
        exact h
      · exact h
  | unregister session' shard =>
      rw [act]
      split
      · rw [exchange_begin]
        exact h
      · exact h
  | proceed n =>
      rw [act, proceed]
      cases hc : w.calls[n]? with
      | none => exact h
      | some c =>
          obtain ⟨rest, hold, -⟩ := charges_proceed hc
          have hbalances := hw.balances.perm hold
          exact ((Call.steps_perform hbalances).account hbalances session).2 h
  | abandon => exact h

/-- Whom a move closes is open before it and closed after it. -/
theorem Sound.account_of_closes (hw : w.Sound) {move : Move} (h : w.closes move = some session) :
    w.exchange.books.account session = some (session, false) ∧
      (w.act move).exchange.books.account session = some (session, true) := by
  obtain ⟨n, c, l, rfl, hc, hl, hopen, rfl⟩ := leaving_of_closes h
  obtain ⟨rest, hold, -⟩ := charges_proceed hc
  have hmem := mem_charges_of_leaving hc hl
  have haccount :=
    hw.balances.account l (List.mem_append_right _ (List.mem_append_left _ hmem))
  rw [hopen] at haccount
  have hsteps := Call.steps_perform (hw.balances.perm hold)
  refine ⟨haccount, ?_⟩
  rw [act, proceed, hc]
  dsimp only
  rw [hsteps.books_of_open hl hopen]
  exact if_pos rfl

/-- A connection that is closed for the first time never is again. -/
theorem nodup_closings (hx : Unused x) (history : List Move) :
    ((start x).closings history).Nodup ∧ ∀ σ ∈ (start x).closings history,
      ((start x).run history).exchange.books.account σ = some (σ, true) := by
  induction history using List.reverseRecOn with
  | nil => exact ⟨List.nodup_nil, fun _ hσ => absurd hσ List.not_mem_nil⟩
  | append_singleton history move ih =>
      obtain ⟨hnodup, hclosed⟩ := ih
      have hsound := sound_run hx history
      rw [closings_append, run_append]
      cases hcloses : ((start x).run history).closes move with
      | none =>
          rw [Option.toList_none, List.append_nil]
          exact ⟨hnodup, fun σ hσ => hsound.account_act move (hclosed σ hσ)⟩
      | some τ =>
          obtain ⟨hopen, hnow⟩ := hsound.account_of_closes hcloses
          rw [Option.toList_some]
          refine ⟨List.nodup_append.2 ⟨hnodup, List.nodup_singleton τ, ?_⟩, fun σ hσ => ?_⟩
          · -- whoever was closed before is closed still, and this one is open
            rintro σ hσ τ' hτ' rfl
            obtain rfl := List.mem_singleton.1 hτ'
            have hbefore := hclosed σ hσ
            rw [hopen] at hbefore
            cases hbefore
          · rcases List.mem_append.1 hσ with hσ | hσ
            · exact hsound.account_act move (hclosed σ hσ)
            · obtain rfl := List.mem_singleton.1 hσ
              exact hnow

/-- Whom a call has on its hands after a move it had before, or somebody held it before. -/
theorem Sound.leaving_act (hw : w.Sound) {move : Move} {c : Call} {l : Charge}
    (hc : c ∈ (w.act move).calls) (hl : c.leaving = some l) :
    (∃ c' ∈ w.calls, ∃ l', c'.leaving = some l' ∧ l'.shard = l.shard ∧ l'.session = l.session) ∨
      l ∈ w.exchange.held := by
  have hbefore : c ∈ w.calls → (∃ c' ∈ w.calls, ∃ l', c'.leaving = some l' ∧
      l'.shard = l.shard ∧ l'.session = l.session) ∨ l ∈ w.exchange.held :=
    fun hmem => Or.inl ⟨c, hmem, l, hl, rfl, rfl⟩
  -- a call that begins has nobody on its hands
  have hbegin : ∀ session shard stage, c ∈ (w.begin session shard stage).calls → c ∈ w.calls := by
    intro session shard stage hmem
    rcases mem_begin hmem with hmem | ⟨hnone, -⟩
    · exact hmem
    · cases hnone.symm.trans hl
  cases move with
  | accept identity remoteAddress capacity => exact hbefore hc
  | register session =>
      rw [act] at hc
      split at hc
      · exact hbefore (hbegin _ _ _ hc)
      · exact hbefore hc
  | fail session =>
      rw [act] at hc
      split at hc
      · exact hbefore hc
      · exact hbefore hc
  | unregister session shard =>
      rw [act] at hc
      split at hc
      · exact hbefore (hbegin _ _ _ hc)
      · exact hbefore hc
  | proceed n =>
      rw [act, proceed] at hc
      cases hn : w.calls[n]? with
      | none =>
          rw [hn] at hc
          exact hbefore hc
      | some c₀ =>
          rw [hn] at hc
          obtain ⟨rest, hold, -⟩ := charges_proceed hn
          have hsteps := Call.steps_perform (hw.balances.perm hold)
          have hmem := List.mem_of_getElem? hn
          rcases mem_advance hc with hc | hnext
          · exact hbefore hc
          · rw [hnext] at hsteps
            rcases hsteps.leaving hl with ⟨l', hl', hsame⟩ | hheld
            · exact Or.inl ⟨c₀, hmem, l', hl', hsame⟩
            · exact Or.inr hheld
  | abandon => exact hbefore hc

/-- Whom a call has on its hands was held at its shard before. -/
theorem held_before (hx : Unused x) (history : List Move) {c : Call} {l : Charge}
    (hc : c ∈ ((start x).run history).calls) (hl : c.leaving = some l) :
    ∃ earlier, earlier <+: history ∧
      ∃ identity, ((start x).run earlier).exchange.holder? l.shard identity = some l.session := by
  induction history using List.reverseRecOn generalizing c l with
  | nil => cases hc
  | append_singleton history move ih =>
      have hsound := sound_run hx history
      rw [run_append] at hc
      rcases hsound.leaving_act hc hl with ⟨c', hc', l', hl', hshard, hsession⟩ | hheld
      · obtain ⟨earlier, hstarts, identity, hholder⟩ := ih hc' hl'
        rw [hshard, hsession] at hholder
        exact ⟨earlier, hstarts.trans (List.prefix_append ..), identity, hholder⟩
      · obtain ⟨shard, session, isClosed⟩ := l
        obtain rfl : isClosed = false := Exchange.isClosed_of_mem_held hheld
        obtain ⟨identity, hholder⟩ := (Exchange.mem_held_iff hsound.balances).1 hheld
        exact ⟨history, List.prefix_append .., identity, hholder⟩

/-- With no call under way the charges of a shard are those who are held there and those who are
awaited there. -/
theorem Sound.load_of_quiet (hw : w.Sound) (hcalls : w.calls = []) {s : Shard}
    (hs : w.exchange.shard? shard = some s) :
    s.load = s.registry.size + (w.awaited.filter fun _ at_ => decide (at_ = shard)).size := by
  have hload := congrArg Prod.snd (hw.balances.load shard _ (Exchange.loads_of_shard? hs))
  have hwaiting : w.waiting.countP (fun l => decide (l.shard = shard))
      = (w.awaited.filter fun _ at_ => decide (at_ = shard)).size := by
    rw [waiting, List.countP_map, List.countP_eq_length_filter]
    rfl
  rw [charges, hcalls, List.flatMap_nil, List.nil_append, List.countP_append,
    Exchange.countP_held hw.balances hs, hwaiting] at hload
  exact hload

/-- **Load accounting is exact.** Whatever calls are under way and however their steps come: closing a
connection is the first time once at most, and after it left the registry of the shard that it was
admitted to; nothing is taken off a load of nought; and with no call under way the load of a shard
is the number of its connections and of those that it waits for. -/
theorem load_exact (hx : Unused x) (history : List Move) (move : Move) :
    let w := (start x).run history
    ((start x).closings history).Nodup ∧
    (∀ session, w.closes move = some session →
      (∃ shard, w.admitted.get? session = some shard ∧
        ∃ earlier, earlier <+: history ∧ ∃ identity,
          ((start x).run earlier).exchange.holder? shard identity = some session) ∧
      ∀ shard identity, w.exchange.holder? shard identity ≠ some session) ∧
    (∀ shard, w.releases move = some shard →
      ∃ s, w.exchange.shard? shard = some s ∧ 0 < s.load) ∧
    (w.calls = [] → ∀ shard s, w.exchange.shard? shard = some s →
      s.load = s.registry.size + (w.awaited.filter fun _ home => decide (home = shard)).size) := by
  intro w
  have hw : w.Sound := sound_run hx history
  refine ⟨(nodup_closings hx history).1, fun session hcloses => ?_, fun shard hreleases => ?_,
    fun hcalls shard s hs => hw.load_of_quiet hcalls hs⟩
  · obtain ⟨n, c, l, -, hc, hl, -, rfl⟩ := leaving_of_closes hcloses
    have hmem := mem_charges_of_leaving hc hl
    have hearlier := held_before hx history (List.mem_of_getElem? hc) hl
    refine ⟨⟨l.shard, hw.home l ?_, hearlier⟩, hw.not_held hmem⟩
    exact List.mem_append_right _ (List.mem_append_left _ hmem)
  · obtain ⟨l, hl, rfl⟩ := charged_of_releases hreleases
    obtain ⟨charges, hperm⟩ : ∃ charges, w.charges.Perm (l :: charges) :=
      ⟨_, List.perm_cons_erase hl⟩
    obtain ⟨e, he, hpos⟩ := (hw.balances.perm hperm).pos
    obtain ⟨s, hs⟩ := Exchange.exists_shard?_of_lt (hw.balances.lodged l hl)
    refine ⟨s, hs, ?_⟩
    rw [Exchange.loads_of_shard? hs] at he
    obtain rfl := Option.some.inj he
    exact hpos

/-- A connection that was evicted from another shard is about to be closed. -/
theorem load_exact_evicted :
    let x := Exchange.new { pool.initialShards := 2, pool.maxShards := 2 } .inMemory 0
    let history := [Move.accept "ann" none 8, .accept "ann" none 8, .register 0, .proceed 0,
      .proceed 0, .proceed 0, .proceed 0, .proceed 0, .register 1, .proceed 0, .proceed 0,
      .proceed 0, .proceed 0]
    ((start x).run history).closes (.proceed 0) = some 0 ∧
      ∀ shard identity, ((start x).run history).exchange.holder? shard identity ≠ some 0 := by
  intro x history
  have hcloses : ((start x).run history).closes (.proceed 0) = some 0 := by decide
  have hx : Unused x := unused_new _ _ _
  obtain ⟨-, hclosed, -⟩ := load_exact hx history (.proceed 0)
  exact ⟨hcloses, (hclosed 0 hcloses).2⟩

end Switchboard.Turnstile
