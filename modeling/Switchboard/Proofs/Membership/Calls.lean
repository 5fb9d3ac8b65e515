import Switchboard.Proofs.Membership.Turnstile

/-!
# What a step of a call says of who is where

Few of the steps of a call change what registries, index and presence say: a registration comes into
the registry, points the index at its shard, takes whoever it finds at the shard before, and sets the
presence bit; an unregistration lets go, and forgets the identity. Noting the shard of a connection,
closing one, taking it off the load and telling the broker are not seen in the roster at all.

`Call.after` is the roster after the next step of a call, and `Call.next` is the stage that the call
is at then, if it goes on. `perform_eq` says that a step does this and leaves the ground alone.
-/

namespace Switchboard.Turnstile

namespace Stage

/-- A registration that has still to point the identity at its shard. -/
def Tracks : Stage → Prop
  | assign | hold | track => True
  | _ => False

/-- A registration that has pointed the identity at its shard and has still to set the presence
bit. -/
def Settles : Stage → Prop
  | evict _ | setOnline => True
  | _ => False

/-- An unregistration that took the identity from its connection and has still to forget it. -/
def Leaves : Stage → Prop
  | untrack => True
  | _ => False

end Stage

/-! ## What a step does to a roster -/

namespace Call

/-- The call at another stage, with a connection on its hands or none. -/
def moved (c : Call) (leaving : Option Charge) (stage : Stage) : Call := { c with leaving, stage }

/-- The roster after the next step of a call. -/
def after (c : Call) (r : Roster) : Roster :=
  match c.leaving, c.stage with
  | none, .hold => r.hold c.shard c.identity c.session
  | none, .track => r.track c.identity c.shard
  | none, .evict previous => r.evict previous c.identity c.session
  | none, .setOnline => r.setOnline c.identity
  | none, .letGo => r.letGo c.shard c.identity c.session
  | none, .untrack => r.untrack c.identity c.shard
  | _, _ => r

/-- The stage that a call is at after its next step, if it goes on. -/
def next (c : Call) (r : Roster) : Option Stage :=
  match c.leaving, c.stage with
  -- whoever is on its hands is dealt with first
  | some _, stage => some stage
  | none, .assign => some .hold
  | none, .hold => some .track
  | none, .track =>
    match r.index c.identity with
    | some previous => if previous = c.shard then some .setOnline else some (.evict previous)
    | none => some .setOnline
  | none, .evict _ => some .setOnline
  | none, .setOnline => some (.announce .online)
  | none, .letGo => if r.holder c.shard c.identity = some c.session then some .untrack else none
  | none, .untrack => if r.Deserted c.identity c.shard then some (.announce .offline) else none
  | none, .announce _ => none

variable {c : Call} {r : Roster}

/-- Whoever holds an identity after a step held it before, or was given it just now. -/
theorem holder_of_after {shard : Nat} {identity : String} {session : Session}
    (h : (c.after r).holder shard identity = some session) :
    r.holder shard identity = some session ∨
      (c.stage = .hold ∧ shard = c.shard ∧ identity = c.identity ∧ session = c.session) := by
  obtain ⟨connection, shard', leaving, stage⟩ := c
  cases leaving with
  | some l => exact Or.inl h
  | none =>
      cases stage with
      | hold =>
          simp only [after, Roster.hold] at h
          split at h
          · next hat => exact Or.inr ⟨rfl, hat.1, hat.2, (Option.some.inj h).symm⟩
          · exact Or.inl h
      | evict previous =>
          simp only [after, Roster.evict] at h
          split at h
          · cases h
          · exact Or.inl h
      | letGo =>
          simp only [after, Roster.letGo] at h
          split at h
          · cases h
          · exact Or.inl h
      | untrack =>
          simp only [after, Roster.untrack] at h
          split at h
          · exact Or.inl h
          · exact Or.inl h
      -- no other stage gives or takes an identity
      | _ => exact Or.inl h

/-- A call sets the presence bit though its connection has lost the identity. -/
def MarksLate (c : Call) (r : Roster) : Prop :=
  c.leaving = none ∧ c.stage = .setOnline ∧ r.holder c.shard c.identity ≠ some c.session

/-- A call clears the presence bit. -/
def Clears (c : Call) (r : Roster) : Prop :=
  c.leaving = none ∧ c.stage = .untrack ∧ r.Deserted c.identity c.shard

/-- A step is about the identity of its connection only. -/
theorem after_of_ne {identity : String} (h : identity ≠ c.identity) (r : Roster) :
    (∀ shard, (c.after r).holder shard identity = r.holder shard identity) ∧
      (c.after r).index identity = r.index identity ∧
      (c.after r).online identity = r.online identity := by
  obtain ⟨connection, shard', leaving, stage⟩ := c
  cases leaving with
  | some l => exact ⟨fun _ => rfl, rfl, rfl⟩
  | none =>
      cases stage with
      | hold => exact ⟨fun _ => if_neg fun hp => h hp.2, rfl, rfl⟩
      | track => exact ⟨fun _ => rfl, if_neg h, rfl⟩
      | evict previous => exact ⟨fun _ => if_neg fun hp => h hp.2.1, rfl, rfl⟩
      | setOnline => exact ⟨fun _ => rfl, rfl, by simp [after, Roster.setOnline, h]⟩
      | letGo => exact ⟨fun _ => if_neg fun hp => h hp.2.1, rfl, rfl⟩
      | untrack =>
          simp only [after, Roster.untrack]
          split
          · exact ⟨fun _ => rfl, if_neg h, by simp [h]⟩
          · exact ⟨fun _ => rfl, rfl, rfl⟩
      | _ => exact ⟨fun _ => rfl, rfl, rfl⟩

/-! ## What it does to an exchange -/

variable {x : Exchange} {connection : Connection} {shard : Nat} {stage : Stage}

/-- The next step of a call does to the exchange what it does to a roster, and leaves the ground
alone. -/
def Performs (c : Call) (x : Exchange) : Prop :=
  (∃ leaving, (c.perform x).1 = (c.next x.roster).map (c.moved leaving)) ∧
    (c.perform x).2.roster = c.after x.roster ∧ (c.perform x).2.ground = x.ground

/-- What is done with the connection on its hands keeps a call at its stage. -/
theorem performs_leaving (hkeyed : x.ground.Keyed) (l : Charge) :
    Performs ⟨connection, shard, some l, stage⟩ x := by
  by_cases hclosed : l.isClosed = true
  · rw [Performs, perform_release hclosed]
    exact ⟨⟨none, rfl⟩, x.roster_releaseLoad l.shard, x.ground_releaseLoad l.shard⟩
  · -- closing a connection for the first time or not, the roster does not see it
    have hroster := x.roster_shut l.session
    have hground := Exchange.ground_shut hkeyed l.session
    simp only [Performs, perform, hclosed, Bool.false_eq_true, if_false]
    generalize x.shut l.session = result at hroster hground
    obtain ⟨first, y⟩ := result
    cases first with
    | true => exact ⟨⟨_, rfl⟩, hroster, hground⟩
    | false => exact ⟨⟨none, rfl⟩, hroster, hground⟩

/-- The identity goes to the connection of the call. -/
theorem performs_hold (hshard : (x.shard? shard).isSome)
    (howner : x.ground.owner connection.session = some (connection.identity, connection.session)) :
    Performs ⟨connection, shard, none, .hold⟩ x := by
  obtain ⟨c, hc, heq⟩ := Option.map_eq_some_iff.1 howner
  -- the connection may have been changed since the call began, but not in whose it is
  have hidentity : c.identity = connection.identity := congrArg Prod.fst heq
  rw [Performs, perform_hold]
  refine ⟨⟨_, rfl⟩, (Exchange.roster_enrol hc hshard).trans ?_, x.ground_enrol ..⟩
  rw [hidentity]
  rfl

/-- With a pool that can be reached, the index points at the shard of the call. -/
theorem performs_track (hreachable : x.pool.isReachable = true) :
    Performs ⟨connection, shard, none, .track⟩ x := by
  rw [Performs, perform_track hreachable]
  refine ⟨⟨none, ?_⟩, x.roster_track .., rfl⟩
  simp only [next, Exchange.roster]
  cases x.pool.index.get? connection.identity with
  | none => rfl
  | some previous =>
      by_cases hsame : previous = shard
      · simp only [if_pos hsame]
        rfl
      · simp only [if_neg hsame]
        rfl

theorem performs_evict (x : Exchange) (previous : Nat) :
    Performs ⟨connection, shard, none, .evict previous⟩ x := by
  rw [Performs, perform_evict]
  exact ⟨⟨_, rfl⟩, x.roster_oust .., x.ground_oust ..⟩

theorem performs_setOnline (hwell : x.services.outages = []) :
    Performs ⟨connection, shard, none, .setOnline⟩ x := by
  rw [Performs, perform_setOnline, if_pos (Exchange.setOnline_fst hwell _)]
  exact ⟨⟨none, rfl⟩, Exchange.roster_setOnline hwell _, Exchange.ground_setOnline hwell _⟩

theorem performs_letGo (x : Exchange) : Performs ⟨connection, shard, none, .letGo⟩ x := by
  rw [Performs, perform_letGo, Exchange.letGo_fst]
  refine ⟨?_, x.roster_letGo .., x.ground_letGo ..⟩
  simp only [next, decide_eq_true_eq]
  split
  · exact ⟨_, rfl⟩
  · exact ⟨none, rfl⟩

theorem performs_untrack (hreachable : x.pool.isReachable = true)
    (hwell : x.services.outages = []) : Performs ⟨connection, shard, none, .untrack⟩ x := by
  rw [Performs, perform_untrack, Exchange.depart, if_pos hreachable, Exchange.untrack_fst hwell]
  refine ⟨⟨none, ?_⟩, Exchange.roster_untrack hwell .., Exchange.ground_untrack hwell ..⟩
  simp only [next, decide_eq_true_eq]
  split
  · rfl
  · rfl

/-- **What a step of a call does**, if nothing breaks it off and the call comes into the registry of a
shard that there is, for a connection that there is. -/
theorem perform_eq (hkeyed : x.ground.Keyed) (hreachable : x.pool.isReachable = true)
    (hwell : x.services.outages = [])
    (hhold : c.stage = .hold → (x.shard? c.shard).isSome ∧
      x.ground.owner c.session = some (c.identity, c.session)) : c.Performs x := by
  obtain ⟨connection, shard, leaving, stage⟩ := c
  cases leaving with
  | some l => exact performs_leaving hkeyed l
  | none =>
      cases stage with
      | assign =>
          -- which shard a connection belongs to is no part of the roster
          exact ⟨⟨none, rfl⟩, x.roster_assignShard .., Exchange.ground_assignShard hkeyed ..⟩
      | hold => exact performs_hold (hhold rfl).1 (hhold rfl).2
      | track => exact performs_track hreachable
      | evict previous => exact performs_evict x previous
      | setOnline => exact performs_setOnline hwell
      | letGo => exact performs_letGo x
      | untrack => exact performs_untrack hreachable hwell
      | announce kind => exact ⟨⟨none, rfl⟩, x.roster_announce _, x.ground_announce _⟩

end Call

end Switchboard.Turnstile
