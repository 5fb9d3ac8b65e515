import Switchboard.Proofs.Membership.Roster

/-!
# The ledger

Admission, registration and unregistration, each done to its end before the next begins, amount to
a `Ledger`: a map from each identity to its latest live session. Registration writes the session of
an identity into it, and unregistration strikes it out if it is still the one that stands there.

`Reads` says that registries, index and presence bits of a `Roster` are what a ledger makes them. It
says so of each identity by itself (`ReadsAt`), and a call changes one identity only, so
`reads_register` and `reads_unregister` come down to the identity of the call.
-/

namespace Switchboard

namespace Roster

/-- Who holds an identity at another shard, if that is where it points. -/
def left (r : Roster) (shard : Nat) (identity : String) : Option Session :=
  match r.index identity with
  | some previous => if previous = shard then none else r.holder previous identity
  | none => none

def moveTo (r : Roster) (shard : Nat) (identity : String) (session : Session) : Roster :=
  match r.index identity with
  | some previous =>
    if previous = shard then r.track identity shard
    else (r.track identity shard).evict previous identity session
  | none => r.track identity shard

/-- What a registration does, done to its end. -/
def register (r : Roster) (shard : Nat) (identity : String) (session : Session) : Roster :=
  ((r.hold shard identity session).moveTo shard identity session).setOnline identity

/-- What an unregistration does, done to its end. -/
def unregister (r : Roster) (shard : Nat) (identity : String) (session : Session) : Roster :=
  if r.holder shard identity = some session then
    (r.letGo shard identity session).untrack identity shard
  else r

section Register

variable (r : Roster) (shard : Nat) (identity : String) (session : Session)

theorem index_register (i : String) : (r.register shard identity session).index i
    = if i = identity then some shard else r.index i := by
  simp only [register, setOnline, moveTo]
  split
  · split
    · rfl
    · rfl
  · rfl

theorem online_register (i : String) : (r.register shard identity session).online i
    = (decide (i = identity) || r.online i) := by
  simp only [register, setOnline, moveTo]
  split
  · split
    · rfl
    · rfl
  · rfl

theorem holder_register_self :
    (r.register shard identity session).holder shard identity = some session := by
  have hheld : (r.hold shard identity session).holder shard identity = some session :=
    if_pos ⟨rfl, rfl⟩
  simp only [register, setOnline, moveTo]
  split
  · split
    · exact hheld
    · next hne =>
        -- the eviction is at another shard
        exact (if_neg fun hp => hne hp.1.symm).trans hheld
  · exact hheld

theorem holder_register_of_ne {i : String} (h : i ≠ identity) (s : Nat) :
    (r.register shard identity session).holder s i = r.holder s i := by
  have hkept : (r.hold shard identity session).holder s i = r.holder s i :=
    if_neg fun hp => h hp.2
  simp only [register, setOnline, moveTo]
  split
  · split
    · exact hkept
    · exact (if_neg fun hp => h hp.2.1).trans hkept
  · exact hkept

/-- At another shard somebody is evicted if the index points there, unless that is the session
itself. -/
theorem holder_register_elsewhere {s : Nat} (h : s ≠ shard) :
    (r.register shard identity session).holder s identity
      = if r.index identity = some s ∧ r.holder s identity ≠ some session then none
        else r.holder s identity := by
  have hkept : (r.hold shard identity session).holder s identity = r.holder s identity :=
    if_neg fun hp => h hp.1
  simp only [register, setOnline, moveTo]
  split
  · next previous hprevious =>
      have hprevious : r.index identity = some previous := hprevious
      rw [hprevious]
      split
      · next hsame =>
          rw [if_neg]
          · exact hkept
          · intro hp
            exact h ((Option.some.inj hp.1).symm.trans hsame)
      · simp only [evict, track, hkept, Option.some.injEq, true_and, eq_comm (a := s)]
  · next hnone =>
      have hnone : r.index identity = none := hnone
      rw [hnone, if_neg fun hp => Option.some_ne_none s hp.1.symm]
      exact hkept

end Register

theorem letGo_of_not_held {r : Roster} {shard : Nat} {identity : String} {session : Session}
    (h : r.holder shard identity ≠ some session) : r.letGo shard identity session = r := by
  refine Roster.ext (funext fun s => funext fun i => if_neg ?_) rfl rfl
  rintro ⟨rfl, rfl, hheld⟩
  exact h hheld

theorem left_hold (r : Roster) (shard : Nat) (identity : String) (session : Session) :
    (r.hold shard identity session).left shard identity = r.left shard identity := by
  simp only [left, hold]
  split
  · split
    · rfl
    · next hne => exact if_neg fun hp => hne hp.1
  · rfl

end Roster

/-- One of the things that are done to their end. -/
inductive Visit
  | accept (identity : String) (remoteAddress : Option SocketAddress) (capacity : Nat)
  | register (session : Session)
  | unregister (session : Session)
  deriving DecidableEq

/-- The latest live session of each identity. -/
abbrev Ledger := String → Option Session

namespace Ledger

def register (m : Ledger) (identity : String) (session : Session) : Ledger :=
  fun i => if i = identity then some session else m i

def unregister (m : Ledger) (identity : String) (session : Session) : Ledger :=
  fun i => if i = identity ∧ m i = some session then none else m i

variable (owner : Session → Option String)

/-- The ledger after a visit. `owner` tells whose a session is. -/
def act (m : Ledger) : Visit → Ledger
  | .accept .. => m
  | .register session =>
    match owner session with
    | some identity => m.register identity session
    | none => m
  | .unregister session =>
    match owner session with
    | some identity => m.unregister identity session
    | none => m

def run (m : Ledger) (history : List Visit) : Ledger := history.foldl (act owner) m

/-- Who is said to have come or gone with a visit. -/
def news (m : Ledger) : Visit → List (PresenceKind × String)
  | .accept .. => []
  | .register session =>
    match owner session with
    | some identity => [(.online, identity)]
    | none => []
  | .unregister session =>
    match owner session with
    | some identity => if m identity = some session then [(.offline, identity)] else []
    | none => []

/-- Who is said to have come or gone in a history. -/
def chronicle (m : Ledger) : List Visit → List (PresenceKind × String)
  | [] => []
  | visit :: history => m.news owner visit ++ (m.act owner visit).chronicle history

end Ledger

/-! ## Rosters and ledgers -/

/-- A roster says what a ledger does, of sessions that are at home somewhere. -/
structure Reads (r : Roster) (home : Session → Option (Nat × String)) (m : Ledger) : Prop where
  holder : ∀ s i σ, r.holder s i = some σ ↔ m i = some σ ∧ home σ = some (s, i)
  index : ∀ i s, r.index i = some s ↔ ∃ σ, m i = some σ ∧ home σ = some (s, i)
  online : ∀ i, r.online i = true ↔ ∃ σ, m i = some σ
  known : ∀ i σ, m i = some σ → ∃ s, home σ = some (s, i)

/-- A roster says what a ledger does of one identity. -/
structure ReadsAt (r : Roster) (home : Session → Option (Nat × String)) (m : Ledger)
    (i : String) : Prop where
  holder : ∀ s σ, r.holder s i = some σ ↔ m i = some σ ∧ home σ = some (s, i)
  index : ∀ s, r.index i = some s ↔ ∃ σ, m i = some σ ∧ home σ = some (s, i)
  online : r.online i = true ↔ ∃ σ, m i = some σ
  known : ∀ σ, m i = some σ → ∃ s, home σ = some (s, i)

section Reads

variable {r r' : Roster} {home : Session → Option (Nat × String)} {m m' : Ledger} {shard : Nat}
  {identity i : String} {session τ : Session}

theorem reads_iff : Reads r home m ↔ ∀ i, ReadsAt r home m i := by
  constructor
  · intro h i
    exact ⟨fun s => h.holder s i, h.index i, h.online i, h.known i⟩
  · intro h
    exact ⟨fun s i => (h i).holder s, fun i => (h i).index, fun i => (h i).online,
      fun i => (h i).known⟩

/-- What a change leaves alone is read as before. -/
theorem ReadsAt.congr (h : ReadsAt r home m i) (hholder : ∀ s, r'.holder s i = r.holder s i)
    (hindex : r'.index i = r.index i) (honline : r'.online i = r.online i) (hm : m' i = m i) :
    ReadsAt r' home m' i := by
  refine ⟨?_, ?_, ?_, ?_⟩
  · intro s σ
    rw [hholder, hm]
    exact h.holder s σ
  · intro s
    rw [hindex, hm]
    exact h.index s
  · rw [honline, hm]
    exact h.online
  · rw [hm]
    exact h.known

/-- An identity that stands in the ledger is held at the home of its session, and points there. -/
theorem readsAt_of_some (hm : m i = some session) (hhome : home session = some (shard, i))
    (hholder : ∀ s, r.holder s i = if s = shard then some session else none)
    (hindex : r.index i = some shard) (honline : r.online i = true) : ReadsAt r home m i := by
  refine ⟨?_, ?_, ?_, ?_⟩
  · intro s σ
    rw [hholder, hm]
    constructor
    · intro hσ
      by_cases hs : s = shard
      · rw [if_pos hs] at hσ
        obtain rfl := Option.some.inj hσ
        exact ⟨rfl, hs ▸ hhome⟩
      · rw [if_neg hs] at hσ
        exact absurd hσ.symm (Option.some_ne_none _)
    · intro hσ
      obtain ⟨heq, hat⟩ := hσ
      obtain rfl := Option.some.inj heq
      exact if_pos (congrArg Prod.fst (Option.some.inj (hat.symm.trans hhome)))
  · intro s
    rw [hindex, hm]
    constructor
    · intro hs
      obtain rfl := Option.some.inj hs
      exact ⟨session, rfl, hhome⟩
    · intro hs
      obtain ⟨σ, heq, hat⟩ := hs
      obtain rfl := Option.some.inj heq
      exact congrArg (Option.map Prod.fst) (hhome.symm.trans hat)
  · rw [honline, hm]
    exact ⟨fun _ => ⟨session, rfl⟩, fun _ => rfl⟩
  · intro σ hσ
    obtain rfl := Option.some.inj (hm.symm.trans hσ)
    exact ⟨shard, hhome⟩

/-- An identity that does not stand in the ledger is nowhere. -/
theorem readsAt_of_none (hm : m i = none) (hholder : ∀ s, r.holder s i = none)
    (hindex : r.index i = none) (honline : r.online i = false) : ReadsAt r home m i := by
  have hnobody : ∀ σ, m i ≠ some σ := fun σ hσ =>
    Option.some_ne_none σ (hσ.symm.trans hm)
  refine ⟨?_, ?_, ?_, ?_⟩
  · intro s σ
    rw [hholder]
    exact ⟨fun hσ => absurd hσ.symm (Option.some_ne_none _), fun hσ => absurd hσ.1 (hnobody σ)⟩
  · intro s
    rw [hindex]
    exact ⟨fun hs => absurd hs.symm (Option.some_ne_none _),
      fun ⟨σ, hσ, _⟩ => absurd hσ (hnobody σ)⟩
  · rw [honline]
    exact ⟨fun ho => absurd ho Bool.false_ne_true, fun ⟨σ, hσ⟩ => absurd hσ (hnobody σ)⟩
  · exact fun σ hσ => absurd hσ (hnobody σ)

/-- The index points at whoever holds an identity. -/
theorem Reads.index_of_holder (h : Reads r home m) (hτ : r.holder shard identity = some τ) :
    r.index identity = some shard :=
  (h.index identity shard).2 ⟨τ, (h.holder shard identity τ).1 hτ⟩

/-- A session stands in the ledger for one identity only. -/
theorem Reads.ledger_inj (h : Reads r home m) (hi : m i = some τ) (hj : m identity = some τ) :
    i = identity := by
  obtain ⟨s, hs⟩ := h.known i τ hi
  obtain ⟨t, ht⟩ := h.known identity τ hj
  exact congrArg Prod.snd (Option.some.inj (hs.symm.trans ht))

/-- Nobody is ousted by a registration but the session in the ledger. -/
theorem Reads.ousted_iff (h : Reads r home m) (shard : Nat) (identity : String) (τ : Session) :
    (r.holder shard identity = some τ ∨ r.left shard identity = some τ) ↔ m identity = some τ := by
  constructor
  · intro hτ
    cases hτ with
    | inl hheld => exact ((h.holder shard identity τ).1 hheld).1
    | inr hleft =>
        rw [Roster.left] at hleft
        split at hleft
        · split at hleft
          · cases hleft
          · exact ((h.holder _ identity τ).1 hleft).1
        · cases hleft
  · intro hτ
    obtain ⟨s, hs⟩ := h.known identity τ hτ
    have hheld := (h.holder s identity τ).2 ⟨hτ, hs⟩
    by_cases hsame : s = shard
    · exact Or.inl (hsame ▸ hheld)
    · refine Or.inr ?_
      rw [Roster.left, h.index_of_holder hheld]
      exact (if_neg hsame).trans hheld

/-- A ledger is read as well when more sessions are at home. -/
theorem Reads.mono {home' : Session → Option (Nat × String)} (h : Reads r home m)
    (hkept : ∀ σ at', home σ = some at' → home' σ = some at') : Reads r home' m := by
  have hsame : ∀ i σ, m i = some σ → home' σ = home σ := by
    intro i σ hσ
    obtain ⟨s, hs⟩ := h.known i σ hσ
    rw [hs, hkept σ _ hs]
  refine ⟨?_, ?_, h.online, fun i σ hσ => (h.known i σ hσ).imp fun s hs => hkept σ _ hs⟩
  · intro s i σ
    rw [h.holder]
    exact and_congr_right fun hσ => by rw [hsame i σ hσ]
  · intro i s
    rw [h.index]
    exact exists_congr fun σ => and_congr_right fun hσ => by rw [hsame i σ hσ]

/-- After a registration the session holds the identity at its home, and nobody else anywhere. -/
theorem Reads.holder_register (h : Reads r home m) (hhome : home session = some (shard, identity))
    (s : Nat) : (r.register shard identity session).holder s identity
      = if s = shard then some session else none := by
  by_cases hs : s = shard
  · rw [if_pos hs, hs]
    exact Roster.holder_register_self ..
  · rw [if_neg hs, Roster.holder_register_elsewhere _ _ _ _ hs]
    cases hheld : r.holder s identity with
    | none => exact ite_self none
    | some τ =>
        -- the session itself is at home elsewhere, so whoever is here is evicted
        have hne : some τ ≠ some session := by
          intro heq
          rw [heq] at hheld
          have hat := ((h.holder s identity session).1 hheld).2
          exact hs (congrArg Prod.fst (Option.some.inj (hat.symm.trans hhome)))
        exact if_pos ⟨h.index_of_holder hheld, hne⟩

/-- **A registration writes its session into the ledger.** -/
theorem reads_register (h : Reads r home m) (hhome : home session = some (shard, identity)) :
    Reads (r.register shard identity session) home (m.register identity session) := by
  rw [reads_iff]
  intro i
  by_cases hi : i = identity
  · subst hi
    refine readsAt_of_some (if_pos rfl) hhome (h.holder_register hhome) ?_ ?_
    · rw [Roster.index_register, if_pos rfl]
    · rw [Roster.online_register, decide_eq_true rfl, Bool.true_or]
  · refine (reads_iff.1 h i).congr (Roster.holder_register_of_ne r shard identity session hi) ?_ ?_
      (if_neg hi)
    · rw [Roster.index_register, if_neg hi]
    · rw [Roster.online_register, decide_eq_false hi, Bool.false_or]

/-- A session stands in the ledger just when it holds its identity at its home. -/
theorem Reads.ledger_iff (h : Reads r home m) (hhome : home session = some (shard, identity)) :
    m identity = some session ↔ r.holder shard identity = some session :=
  ⟨fun hm => (h.holder shard identity session).2 ⟨hm, hhome⟩,
    fun hh => ((h.holder shard identity session).1 hh).1⟩

/-- A roster that says what a ledger does says the same in all its parts. -/
theorem Reads.agrees (h : Reads r home m) (identity : String) : r.Agrees identity where
  unique s t σ τ hσ hτ :=
    Option.some.inj ((h.index_of_holder hσ).symm.trans (h.index_of_holder hτ))
  index s := (h.index identity s).trans (exists_congr fun σ => (h.holder s identity σ).symm)
  online := by
    rw [h.online]
    constructor
    · intro hm
      obtain ⟨σ, hσ⟩ := hm
      obtain ⟨s, hs⟩ := h.known identity σ hσ
      exact ⟨s, (h.index identity s).2 ⟨σ, hσ, hs⟩⟩
    · intro hindex
      obtain ⟨s, hs⟩ := hindex
      obtain ⟨σ, hσ, -⟩ := (h.index identity s).1 hs
      exact ⟨σ, hσ⟩

/-- What is let go where the index points is deserted. -/
theorem Reads.deserted_letGo (h : Reads r home m)
    (hheld : r.holder shard identity = some session) :
    (r.letGo shard identity session).Deserted identity shard :=
  ⟨h.index_of_holder hheld, if_pos ⟨rfl, rfl, hheld⟩⟩

/-- Whoever stands in the ledger, and lets go, held the identity nowhere else. -/
theorem Reads.holder_letGo (h : Reads r home m) (hhome : home session = some (shard, identity))
    (hheld : r.holder shard identity = some session) (s : Nat) :
    (r.letGo shard identity session).holder s identity = none := by
  show (if s = shard ∧ identity = identity ∧ r.holder s identity = some session then none
    else r.holder s identity) = none
  cases hs : r.holder s identity with
  | none => exact ite_self none
  | some τ =>
      obtain ⟨hτ, hat⟩ := (h.holder s identity τ).1 hs
      obtain rfl := Option.some.inj (((h.ledger_iff hhome).2 hheld).symm.trans hτ)
      exact if_pos ⟨congrArg Prod.fst (Option.some.inj (hat.symm.trans hhome)), rfl, rfl⟩

/-- **An unregistration strikes its session out of the ledger**, if it still stands there. -/
theorem reads_unregister (h : Reads r home m) (hhome : home session = some (shard, identity)) :
    Reads (r.unregister shard identity session) home (m.unregister identity session) := by
  have hiff := h.ledger_iff hhome
  by_cases hheld : r.holder shard identity = some session
  · rw [Roster.unregister, if_pos hheld, Roster.untrack, if_pos (h.deserted_letGo hheld), reads_iff]
    intro i
    by_cases hi : i = identity
    · subst hi
      refine readsAt_of_none (if_pos ⟨rfl, hiff.2 hheld⟩) (h.holder_letGo hhome hheld) (if_pos rfl) ?_
      exact (congrArg (· && r.online i) (decide_eq_false (not_not_intro rfl))).trans
        (Bool.false_and _)
    · refine (reads_iff.1 h i).congr ?_ (if_neg hi) ?_ (if_neg fun hp => hi hp.1)
      · exact fun s => if_neg fun hp => hi hp.2.1
      · exact (congrArg (· && r.online i) (decide_eq_true hi)).trans (Bool.true_and _)
  · have hledger : m.unregister identity session = m := by
      funext i
      refine if_neg fun hp => hheld (hiff.1 ?_)
      rw [← hp.1]
      exact hp.2
    rw [Roster.unregister, if_neg hheld, hledger]
    exact h

end Reads

end Switchboard
