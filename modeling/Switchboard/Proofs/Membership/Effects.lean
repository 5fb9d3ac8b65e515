import Switchboard.Exchange.Monitor
import Switchboard.Proofs.Membership.Ledger

/-!
# What registration and unregistration do

The two calls, each done to its end: what becomes of the roster (`Roster.register`,
`Roster.unregister`), of every connection, and what a broker is told. The presence service is well
and the pool can be reached, so neither call breaks off.

A registration takes the identity over at its shard, moves it there from where it was, sets the
presence bit and tells that it came: `register_spec`. An unregistration lets go, closes the
connection, forgets the identity and tells that it went, or finds that somebody else holds it and
does nothing: `unregister_spec`.
-/

namespace Switchboard

/-! ## Connections after a section -/

namespace Connection

theorem closed_close (c : Connection) : c.close.2.isClosed = true := by
  rw [close]
  split
  · next h => exact h
  · rfl

/-- Closing cancels a connection that was open. -/
theorem cancelled_close {c : Connection} (h : c.isClosed = false) : c.close.2.isCancelled = true := by
  rw [close, h]
  rfl

/-- Closing twice is closing once. -/
theorem close_of_closed {c : Connection} (h : c.isClosed = true) : c.close.2 = c := by
  rw [close, if_pos h]

end Connection

namespace Exchange

variable {x : Exchange} {c : Connection} {shard : Nat} {identity : String} {session : Session}

/-- Taking an identity assigns the shard to the connection, and closes nobody yet. -/
theorem connection?_hold (h : x.connection? session = some c) (hsession : c.session = session)
    (shard : Nat) (τ : Session) : (x.hold shard session).2.connection? τ
      = if τ = session then some { c with shard := some shard } else x.connection? τ := by
  rw [hold, h]
  refine (connection?_putConnection x { c with shard := some shard } τ).trans ?_
  rw [hsession]

/-- Only the connection that is shut is closed. -/
theorem connection?_shut (hkeyed : x.ground.Keyed) (session τ : Session) :
    (x.shut session).2.connection? τ
      = if τ = session then (x.connection? τ).map (·.close.2) else x.connection? τ := by
  rw [shut]
  cases h : x.connection? session with
  | none =>
      by_cases hτ : τ = session
      · rw [if_pos hτ, hτ, h]
        rfl
      · rw [if_neg hτ]
  | some c =>
      dsimp only
      rw [connection?_putConnection, session_close, session_eq hkeyed h]
      by_cases hτ : τ = session
      · rw [if_pos hτ, if_pos hτ, hτ, h]
        rfl
      · rw [if_neg hτ, if_neg hτ]

/-- Retirement closes the one connection; loads are kept elsewhere. -/
theorem connection?_retire (hkeyed : x.ground.Keyed) (shard : Nat) (session τ : Session) :
    (x.retire shard session).connection? τ
      = if τ = session then (x.connection? τ).map (·.close.2) else x.connection? τ := by
  rw [retire_eq_shut]
  split
  · exact connection?_shut hkeyed session τ
  · exact connection?_shut hkeyed session τ

/-- Whoever is displaced is closed, unless that is the session itself. -/
theorem connection?_retireDisplaced (hkeyed : x.ground.Keyed) (shard : Nat) (session : Session)
    (displaced : Option Session) (τ : Session) :
    (x.retireDisplaced shard session displaced).connection? τ
      = if displaced = some τ ∧ τ ≠ session then (x.connection? τ).map (·.close.2)
        else x.connection? τ := by
  cases displaced with
  | none => rfl
  | some stale =>
      rw [retireDisplaced]
      by_cases hstale : stale = session
      · rw [if_pos hstale, if_neg]
        -- a session that takes its own place is not closed
        rintro ⟨hτ, hne⟩
        exact hne ((Option.some.inj hτ).symm.trans hstale)
      · rw [if_neg hstale, connection?_retire hkeyed]
        by_cases hτ : τ = stale
        · rw [if_pos hτ, if_pos ⟨congrArg some hτ.symm, hτ ▸ hstale⟩]
        · rw [if_neg hτ, if_neg fun hp => hτ (Option.some.inj hp.1).symm]

/-- Eviction closes whoever holds the identity at the shard, but for the session that is to keep it.
-/
theorem connection?_evict (hkeyed : x.ground.Keyed) (shard : Nat) (identity : String)
    (keep τ : Session) : (x.evict shard identity keep).connection? τ
      = if x.roster.holder shard identity = some τ ∧ τ ≠ keep then
          (x.connection? τ).map (·.close.2)
        else x.connection? τ := by
  by_cases h : ∀ stale, x.roster.holder shard identity = some stale → stale = keep
  · rw [evict_of_keep h, if_neg fun hp => hp.2 (h τ hp.1)]
  · simp only [Classical.not_forall] at h
    obtain ⟨stale, hstale, hne⟩ := h
    -- somebody else holds it: the registry lets go first, and that is no matter of connections
    obtain ⟨f, hf, heq⟩ := evict_of_holder hstale hne
    have hground := ground_mapShard hf x shard
    rw [heq, connection?_retire (by rwa [hground]), hstale]
    show (if τ = stale then (x.connection? τ).map _ else x.connection? τ) = _
    by_cases hτ : τ = stale
    · rw [if_pos hτ, if_pos ⟨congrArg some hτ.symm, hτ ▸ hne⟩]
    · rw [if_neg hτ, if_neg fun hp => hτ (Option.some.inj hp.1).symm]

theorem connection?_letGo (x : Exchange) (shard : Nat) (c : Connection) (τ : Session) :
    (x.letGo shard c).2.connection? τ = x.connection? τ := by
  rw [letGo]
  split
  · rfl
  · rfl

/-- Telling the broker closes nobody. -/
theorem connection?_announce (x : Exchange) (event : PresenceEvent) (τ : Session) :
    (x.announce event).connection? τ = x.connection? τ := by
  rw [announce]
  split
  · split
    · rfl
    · rfl
  · rfl

/-! ## Services after a section -/

theorem services_assignShard (x : Exchange) (shard : Nat) (session : Session) :
    (x.assignShard shard session).services = x.services := by
  rw [assignShard, mapConnection]
  split
  · rfl
  · rfl

theorem services_enrol (x : Exchange) (shard : Nat) (session : Session) :
    (x.enrol shard session).2.services = x.services := by
  rw [enrol]
  split
  · rfl
  · rfl

theorem services_hold (x : Exchange) (shard : Nat) (session : Session) :
    (x.hold shard session).2.services = x.services := by
  rw [hold]
  split
  · rfl
  · rfl

/-- A connection is closed without asking any service. -/
theorem services_shut (x : Exchange) (session : Session) :
    (x.shut session).2.services = x.services := by
  rw [shut]
  split
  · rfl
  · rfl

theorem services_retire (x : Exchange) (shard : Nat) (session : Session) :
    (x.retire shard session).services = x.services := by
  rw [retire_eq_shut]
  split
  · exact services_shut x session
  · exact services_shut x session

theorem services_retireDisplaced (x : Exchange) (shard : Nat) (session : Session)
    (displaced : Option Session) :
    (x.retireDisplaced shard session displaced).services = x.services := by
  rw [retireDisplaced.eq_def]
  split
  · split
    · rfl
    · exact services_retire ..
  · rfl

theorem services_oust (x : Exchange) (shard : Nat) (identity : String) (keep : Session) :
    (x.oust shard identity keep).2.services = x.services := by
  rw [oust]
  split
  · rfl
  · split
    · rfl
    · rfl

/-- Eviction happens inside the exchange: nobody is told and nothing is looked up. -/
theorem services_evict (x : Exchange) (shard : Nat) (identity : String) (keep : Session) :
    (x.evict shard identity keep).services = x.services := by
  have houst := services_oust x shard identity keep
  rw [evict_eq_oust]
  split
  · next heq => rwa [heq] at houst
  · next heq =>
      rw [heq] at houst
      exact (services_retire ..).trans houst

theorem services_letGo (x : Exchange) (shard : Nat) (c : Connection) :
    (x.letGo shard c).2.services = x.services := by
  rw [letGo]
  split
  · rfl
  · rfl

/-! ## Whole calls -/

theorem moveTo_of_index {previous : Nat} (h : x.pool.index.get? identity = some previous)
    (shard : Nat) (session : Session) : x.moveTo shard identity session
      = if previous = shard then (x.track identity shard).2
        else (x.track identity shard).2.evict previous identity session := by
  rw [moveTo, track, h]

theorem moveTo_of_not_index (h : x.pool.index.get? identity = none) (shard : Nat)
    (session : Session) : x.moveTo shard identity session = (x.track identity shard).2 := by
  rw [moveTo, track, h]

/-- **Moving an identity does to the roster what it says there**: the index follows, and whoever
held it elsewhere is gone. -/
theorem roster_moveTo (x : Exchange) (shard : Nat) (identity : String) (session : Session) :
    (x.moveTo shard identity session).roster = x.roster.moveTo shard identity session := by
  cases h : x.pool.index.get? identity with
  | none =>
      have hindex : x.roster.index identity = none := h
      rw [moveTo_of_not_index h, Roster.moveTo, hindex]
      exact roster_track ..
  | some previous =>
      have hindex : x.roster.index identity = some previous := h
      rw [moveTo_of_index h, Roster.moveTo, hindex]
      dsimp only
      split
      · exact roster_track ..
      · exact (roster_evict ..).trans (congrArg (Roster.evict · previous identity session)
          (roster_track x identity shard))

/-- What coming and going rests on does not move. -/
theorem ground_moveTo (hkeyed : x.ground.Keyed) (shard : Nat) (identity : String)
    (session : Session) : (x.moveTo shard identity session).ground = x.ground := by
  cases h : x.pool.index.get? identity with
  | none => rw [moveTo_of_not_index h, ground_track]
  | some previous =>
      rw [moveTo_of_index h]
      split
      · exact ground_track ..
      · rw [ground_evict (by rwa [ground_track]), ground_track]

/-- Moving an identity leaves the services alone. -/
theorem services_moveTo (x : Exchange) (shard : Nat) (identity : String) (session : Session) :
    (x.moveTo shard identity session).services = x.services := by
  cases h : x.pool.index.get? identity with
  | none =>
      rw [moveTo_of_not_index h]
      rfl
  | some previous =>
      rw [moveTo_of_index h]
      split
      · rfl
      · exact services_evict ..

/-- Whoever is left behind at another shard is closed. -/
theorem connection?_moveTo (hkeyed : x.ground.Keyed) (shard : Nat) (identity : String)
    (session τ : Session) : (x.moveTo shard identity session).connection? τ
      = if x.roster.left shard identity = some τ ∧ τ ≠ session then
          (x.connection? τ).map (·.close.2)
        else x.connection? τ := by
  cases h : x.pool.index.get? identity with
  | none =>
      have hindex : x.roster.index identity = none := h
      rw [moveTo_of_not_index h, Roster.left, hindex]
      rfl
  | some previous =>
      have hindex : x.roster.index identity = some previous := h
      rw [moveTo_of_index h, Roster.left, hindex]
      -- it was at this shard already, or it is left behind at another one
      by_cases hsame : previous = shard
      · simp only [if_pos hsame, reduceCtorEq, false_and, if_false]
        rfl
      · simp only [if_neg hsame]
        exact connection?_evict (x := (x.track identity shard).2) hkeyed previous identity session τ

/-- The exchange after a registration has taken the identity at its shard and closed whoever had it
there. -/
def takeOver (x : Exchange) (shard : Nat) (session : Session) : Exchange :=
  (x.hold shard session).2.retireDisplaced shard session (x.hold shard session).1

theorem ground_takeOver (hkeyed : x.ground.Keyed) (shard : Nat) (session : Session) :
    (x.takeOver shard session).ground = x.ground := by
  have hheld := ground_hold hkeyed shard session
  have hkeyed' : (x.hold shard session).2.ground.Keyed := by rwa [hheld]
  exact (ground_retireDisplaced hkeyed' shard session _).trans hheld

/-- Closing whoever was displaced does nothing more to the roster than taking the identity did. -/
theorem roster_takeOver (hc : x.connection? session = some c) (hshard : (x.shard? shard).isSome) :
    (x.takeOver shard session).roster = x.roster.hold shard c.identity session :=
  (roster_retireDisplaced ..).trans (roster_hold hc hshard)

theorem services_takeOver (x : Exchange) (shard : Nat) (session : Session) :
    (x.takeOver shard session).services = x.services :=
  (services_retireDisplaced ..).trans (services_hold ..)

/-- The new connection is at its shard, and the one it displaced there is closed. -/
theorem connection?_takeOver (hkeyed : x.ground.Keyed) (hc : x.connection? session = some c)
    (shard : Nat) (τ : Session) : (x.takeOver shard session).connection? τ
      = if τ = session then some { c with shard := some shard }
        else if x.roster.holder shard c.identity = some τ then (x.connection? τ).map (·.close.2)
        else x.connection? τ := by
  have hkeyed' : (x.hold shard session).2.ground.Keyed := by rwa [ground_hold hkeyed]
  rw [takeOver, connection?_retireDisplaced hkeyed', hold_fst hc,
    connection?_hold hc (session_eq hkeyed hc)]
  by_cases hτ : τ = session
  · rw [if_pos hτ, if_pos hτ, if_neg fun hp => hp.2 hτ]
  · rw [if_neg hτ, if_neg hτ]
    -- any other connection is closed just if it held the identity
    by_cases hheld : x.roster.holder shard c.identity = some τ
    · rw [if_pos ⟨hheld, hτ⟩, if_pos hheld]
    · rw [if_neg fun hp => hheld hp.1, if_neg hheld]

theorem publishing_setOnline (hwell : x.services.outages = []) (identity : String) :
    (x.setOnline identity).2.services.publishing = x.services.publishing := by
  rw [setOnline, changePresence_of_well hwell]

theorem connection?_setOnline (hwell : x.services.outages = []) (identity : String) (τ : Session) :
    (x.setOnline identity).2.connection? τ = x.connection? τ := by
  rw [setOnline, changePresence_of_well hwell]
  rfl

theorem publishing_untrack (hwell : x.services.outages = []) (identity : String) (shard : Nat) :
    (x.untrack identity shard).2.services.publishing = x.services.publishing := by
  by_cases h : x.roster.Deserted identity shard
  · rw [untrack_of_deserted hwell h]
  · rw [untrack_of_not_deserted h]

theorem connection?_untrack (hwell : x.services.outages = []) (identity : String) (shard : Nat)
    (τ : Session) : (x.untrack identity shard).2.connection? τ = x.connection? τ := by
  by_cases h : x.roster.Deserted identity shard
  · rw [untrack_of_deserted hwell h]
    rfl
  · rw [untrack_of_not_deserted h]

/-- A registration that nothing breaks off takes over, moves, sets the presence bit and tells. -/
theorem register_eq (hc : x.connection? session = some c)
    (hreachable : (x.takeOver shard session).pool.isReachable = true) {y : Exchange}
    (hy : ((x.takeOver shard session).moveTo shard c.identity session).setOnline c.identity
      = (true, y)) :
    x.register shard session = (true, y.announce (y.presenceEvent .online shard c)) := by
  rw [takeOver] at hreachable hy
  rw [register, hc]
  simp only [if_pos hreachable, hy]

/-- **What a registration does.** It goes on to its end, and what it tells comes last. -/
theorem register_spec (hkeyed : x.ground.Keyed) (hreachable : x.pool.isReachable = true)
    (hwell : x.services.outages = []) (hshard : (x.shard? shard).isSome)
    (hc : x.connection? session = some c) :
    ∃ y : Exchange, x.register shard session = (true, y.announce (y.presenceEvent .online shard c)) ∧
      y.roster = x.roster.register shard c.identity session ∧ y.ground = x.ground ∧
      y.services.publishing = x.services.publishing ∧
      ∀ τ, y.connection? τ
        = if τ = session then some { c with shard := some shard }
          else if x.roster.holder shard c.identity = some τ ∨
              x.roster.left shard c.identity = some τ then (x.connection? τ).map (·.close.2)
          else x.connection? τ := by
  have hroster := roster_takeOver hc hshard
  have hground := ground_takeOver hkeyed shard session
  have hservices := services_takeOver x shard session
  have hconnection := connection?_takeOver hkeyed hc shard
  have hreachable' : (x.takeOver shard session).pool.isReachable = true :=
    (congrArg Ground.isReachable hground).trans hreachable
  have heq := @register_eq x c shard session hc hreachable'
  -- the exchange after the identity is taken over, and after it is moved
  generalize x.takeOver shard session = x₁ at *
  have hkeyed₁ : x₁.ground.Keyed := by rwa [hground]
  have hground₂ := ground_moveTo hkeyed₁ shard c.identity session
  have hroster₂ := roster_moveTo x₁ shard c.identity session
  have hservices₂ := services_moveTo x₁ shard c.identity session
  have hconnection₂ := connection?_moveTo hkeyed₁ shard c.identity session
  generalize x₁.moveTo shard c.identity session = x₂ at *
  have hwell₂ : x₂.services.outages = [] := by rw [hservices₂, hservices, hwell]
  refine ⟨(x₂.setOnline c.identity).2, heq (Prod.ext (setOnline_fst hwell₂ _) rfl), ?_, ?_, ?_, ?_⟩
  · rw [roster_setOnline hwell₂, hroster₂, hroster, Roster.register]
  · rw [ground_setOnline hwell₂, hground₂, hground]
  · rw [publishing_setOnline hwell₂, hservices₂, hservices]
  · intro τ
    rw [connection?_setOnline hwell₂, hconnection₂, hroster, Roster.left_hold, hconnection]
    by_cases hτ : τ = session
    · rw [if_pos hτ, if_pos hτ, if_neg fun hp => hp.2 hτ]
    · rw [if_neg hτ, if_neg hτ]
      by_cases hheld : x.roster.holder shard c.identity = some τ
      · rw [if_pos hheld, if_pos (Or.inl hheld)]
        split
        · -- closing twice is closing once
          rw [Option.map_map]
          congr 1
          funext d
          exact Connection.close_of_closed d.closed_close
        · rfl
      · rw [if_neg hheld]
        by_cases hleft : x.roster.left shard c.identity = some τ
        · rw [if_pos ⟨hleft, hτ⟩, if_pos (Or.inr hleft)]
        · rw [if_neg fun hp => hleft hp.1, if_neg fun hp => hp.elim hheld hleft]

/-- The exchange after a connection has let go of its identity at a shard and is closed. -/
def giveUp (x : Exchange) (shard : Nat) (c : Connection) : Exchange :=
  (x.letGo shard c).2.retire shard c.session

theorem ground_giveUp (hkeyed : x.ground.Keyed) (shard : Nat) (c : Connection) :
    (x.giveUp shard c).ground = x.ground := by
  have hgone := ground_letGo x shard c
  have hkeyed' : (x.letGo shard c).2.ground.Keyed := by rwa [hgone]
  exact (ground_retire hkeyed' shard c.session).trans hgone

/-- The identity is given up with the first step; closing the connection adds nothing to that. -/
theorem roster_giveUp (x : Exchange) (shard : Nat) (c : Connection) :
    (x.giveUp shard c).roster = x.roster.letGo shard c.identity c.session :=
  (roster_retire ..).trans (roster_letGo ..)

theorem services_giveUp (x : Exchange) (shard : Nat) (c : Connection) :
    (x.giveUp shard c).services = x.services :=
  (services_retire ..).trans (services_letGo ..)

/-- Only the connection that gives up is closed. -/
theorem connection?_giveUp (hkeyed : x.ground.Keyed) (shard : Nat) (c : Connection) (τ : Session) :
    (x.giveUp shard c).connection? τ
      = if τ = c.session then (x.connection? τ).map (·.close.2) else x.connection? τ := by
  have hkeyed' : (x.letGo shard c).2.ground.Keyed := by rwa [ground_letGo]
  rw [giveUp, connection?_retire hkeyed', connection?_letGo]

/-- An unregistration that finds its connection superseded does nothing more. -/
theorem unregister_of_not_held (hc : x.connection? c.session = some c)
    (hlet : (x.letGo shard c).1 = false) :
    x.unregister shard c.session = (false, (x.letGo shard c).2) := by
  have heq : x.letGo shard c = (false, (x.letGo shard c).2) := Prod.ext hlet rfl
  rw [unregister, hc]
  dsimp only
  rw [heq]

/-- An unregistration of the connection that holds the identity goes on to its end. -/
theorem unregister_of_held (hc : x.connection? c.session = some c)
    (hlet : (x.letGo shard c).1 = true)
    (hreachable : (x.giveUp shard c).pool.isReachable = true) {gone : Bool} {y : Exchange}
    (hy : (x.giveUp shard c).untrack c.identity shard = (gone, y)) :
    x.unregister shard c.session
      = (true, if gone then y.announce (y.presenceEvent .offline shard c) else y) := by
  have heq : x.letGo shard c = (true, (x.letGo shard c).2) := Prod.ext hlet rfl
  rw [giveUp] at hreachable hy
  rw [unregister, hc]
  dsimp only
  rw [heq]
  simp only [depart, if_pos hreachable, hy]

/-- **What an unregistration does.** It takes the identity from the connection only if that still
holds it, and tells that it is gone only if the index still pointed there. -/
theorem unregister_spec (hkeyed : x.ground.Keyed) (hreachable : x.pool.isReachable = true)
    (hwell : x.services.outages = []) (hc : x.connection? session = some c) (shard : Nat) :
    ∃ y : Exchange, x.unregister shard session
        = (decide (x.roster.holder shard c.identity = some session),
          if x.roster.holder shard c.identity = some session ∧
              (x.roster.letGo shard c.identity session).Deserted c.identity shard then
            y.announce (y.presenceEvent .offline shard c)
          else y) ∧
      y.roster = x.roster.unregister shard c.identity session ∧ y.ground = x.ground ∧
      y.services.publishing = x.services.publishing ∧
      ∀ τ, y.connection? τ
        = if τ = session ∧ x.roster.holder shard c.identity = some session then
            (x.connection? τ).map (·.close.2)
          else x.connection? τ := by
  obtain rfl := session_eq hkeyed hc
  have hfst := letGo_fst x shard c
  by_cases hheld : x.roster.holder shard c.identity = some c.session
  · rw [decide_eq_true hheld] at hfst
    have hroster := roster_giveUp x shard c
    have hground := ground_giveUp hkeyed shard c
    have hservices := services_giveUp x shard c
    have hwell' : (x.giveUp shard c).services.outages = [] := by rw [hservices, hwell]
    have hreachable' : (x.giveUp shard c).pool.isReachable = true :=
      (congrArg Ground.isReachable hground).trans hreachable
    -- letting go may desert the index entry; what is told depends on that
    have hgone := untrack_fst hwell' c.identity shard
    rw [hroster] at hgone
    have huntrack : (x.giveUp shard c).untrack c.identity shard
        = (decide ((x.roster.letGo shard c.identity c.session).Deserted c.identity shard),
          ((x.giveUp shard c).untrack c.identity shard).2) := Prod.ext hgone rfl
    refine ⟨((x.giveUp shard c).untrack c.identity shard).2, ?_, ?_, ?_, ?_, ?_⟩
    · rw [unregister_of_held hc hfst hreachable' huntrack, decide_eq_true hheld]
      by_cases hdeserted : (x.roster.letGo shard c.identity c.session).Deserted c.identity shard
      · rw [if_pos (decide_eq_true hdeserted), if_pos ⟨hheld, hdeserted⟩]
      · rw [decide_eq_false hdeserted, if_neg Bool.false_ne_true, if_neg fun hp => hdeserted hp.2]
    · rw [roster_untrack hwell', hroster, Roster.unregister, if_pos hheld]
    · rw [ground_untrack hwell', hground]
    · rw [publishing_untrack hwell', hservices]
    · intro τ
      rw [connection?_untrack hwell', connection?_giveUp hkeyed]
      simp only [hheld, and_true]
  · -- somebody else holds the identity, or nobody does: the registry is as it was
    rw [decide_eq_false hheld] at hfst
    have hroster := roster_letGo x shard c
    rw [Roster.letGo_of_not_held hheld] at hroster
    refine ⟨(x.letGo shard c).2, ?_, ?_, ground_letGo .., ?_, ?_⟩
    · rw [unregister_of_not_held hc hfst, decide_eq_false hheld, if_neg fun hp => hheld hp.1]
    · rw [hroster, Roster.unregister, if_neg hheld]
    · exact congrArg Services.publishing (services_letGo x shard c)
    · intro τ
      rw [if_neg fun hp => hheld hp.2]
      exact connection?_letGo x shard c τ

end Exchange

/-! ## What the broker is told -/

/-- From one exchange to another the broker, if there is one, was told some news, in this order. It
keeps what it is told if anybody listens. -/
def Tells (x y : Exchange) (news : List (PresenceKind × String)) : Prop :=
  ∀ broker, x.services.publishing = .broker broker →
    ∃ events : List PresenceEvent, events.map (fun e => (e.kind, e.identity)) = news ∧
      y.services.publishing = .broker { broker with
        sent := broker.sent
          ++ if broker.subscribers.size = 0 then [] else events.map BrokerEvent.presence }

/-- What leaves publishing alone tells nothing. -/
theorem tells_of_eq {x y : Exchange} (h : y.services.publishing = x.services.publishing) :
    Tells x y [] := by
  intro broker hbroker
  refine ⟨[], rfl, ?_⟩
  rw [h, hbroker, List.map_nil, ite_self, List.append_nil]

/-- An announcement is one piece of news. -/
theorem tells_announce (x : Exchange) (event : PresenceEvent) :
    Tells x (x.announce event) [(event.kind, event.identity)] := by
  intro broker hbroker
  refine ⟨[event], rfl, ?_⟩
  rw [Exchange.announce, hbroker]
  simp only [Broker.publish]
  -- a broker with nobody listening keeps nothing
  by_cases hnone : broker.subscribers.size = 0
  · simp only [if_pos hnone, List.append_nil]
    exact hbroker
  · simp only [if_neg hnone, List.map_cons, List.map_nil]

/-- News come in the order in which they are told. -/
theorem Tells.trans {x y z : Exchange} {before after : List (PresenceKind × String)}
    (h : Tells x y before) (h' : Tells y z after) : Tells x z (before ++ after) := by
  intro broker hbroker
  obtain ⟨events, hevents, hy⟩ := h broker hbroker
  obtain ⟨events', hevents', hz⟩ := h' _ hy
  refine ⟨events ++ events', by rw [List.map_append, hevents, hevents'], ?_⟩
  rw [hz]
  by_cases hnone : broker.subscribers.size = 0
  · simp only [if_pos hnone, List.append_nil]
  · simp only [if_neg hnone, List.map_append, List.append_assoc]

/-- An event says what happened to whom, whether or not it is known where the client is. -/
theorem kind_presenceEvent (x : Exchange) (kind : PresenceKind) (shard : Nat) (c : Connection) :
    ((x.presenceEvent kind shard c).kind, (x.presenceEvent kind shard c).identity)
      = (kind, c.identity) := by
  rw [Exchange.presenceEvent]
  split
  · rfl
  · rfl

end Switchboard
