import Mathlib.Data.List.Induction
import Switchboard.Proofs.Membership.Calls

/-!
# Calls that overlap

The question is whether registries, index and presence agree once every call has returned. They do
for whoever is held somewhere (`Coherent.agrees_of_held`): the index points at the one shard that
holds it, and the presence bit is set. They need not for whoever is gone. A registration that is
overtaken, by a later one that comes and goes or by one whose eviction takes away the wrong
connection, still sets the presence bit in the end and may still point the index at its shard, and
nobody is left to clear either. `LateMark` says that this has happened, and `agrees_iff_of_returned`
that it is the only thing that can.

While calls are under way the three places may disagree for a reason, which is a call that has still
to do its part: `Pointed`, `Marked` and `Explained` name the reasons, and `pointed_step`,
`marked_step` and `explained_step` say that no step takes one away without setting things right.
-/

namespace Switchboard.Turnstile

/-! ## What holds while calls are under way -/

/-- Why the index may not point at the shard where a session holds an identity: the session has still
to point it there, or a later registration that pointed it elsewhere is about to evict the
session. -/
def Pointed (r : Roster) (calls : List Call) (shard : Nat) (identity : String)
    (session : Session) : Prop :=
  r.index identity = some shard ∨
  (∃ c ∈ calls, c.session = session ∧ c.stage.Tracks) ∨
  ∃ c ∈ calls, c.identity = identity ∧ c.shard ≠ shard ∧ c.stage = .evict shard

/-- Why the presence bit of an identity may not be set though the index has it: whoever pointed it
there has still to set the bit. -/
def Marked (r : Roster) (calls : List Call) (identity : String) : Prop :=
  r.online identity = true ∨ ∃ c ∈ calls, c.identity = identity ∧ c.stage.Settles

/-- Why the presence bit of an identity may be set: somebody holds it, or a registration is under
way, or an unregistration is and will clear it. -/
def Explained (r : Roster) (calls : List Call) (identity : String) : Prop :=
  (∃ shard session, r.holder shard identity = some session) ∨
  (∃ c ∈ calls, c.identity = identity ∧ (c.stage.Tracks ∨ c.stage.Settles)) ∨
  ∃ c ∈ calls, c.identity = identity ∧ c.stage.Leaves ∧ r.index identity = some c.shard

section Step

variable {r : Roster} {calls : List Call} {n : Nat} {c : Call} {shard : Nat} {identity : String}
  {session : Session} {left : Option Charge} {next : Option Call}

/-- A reason for an index that points elsewhere stays one, unless it is the call that proceeds. -/
theorem Pointed.keep {r' : Roster} (h : Pointed r calls shard identity session)
    (hc : calls[n]? = some c)
    (hindex : r.index identity = some shard →
      Pointed r' (advance calls n next) shard identity session)
    (htracks : c.session = session → c.stage.Tracks →
      Pointed r' (advance calls n next) shard identity session)
    (hevict : c.identity = identity → c.shard ≠ shard → c.stage = .evict shard →
      Pointed r' (advance calls n next) shard identity session) :
    Pointed r' (advance calls n next) shard identity session := by
  rcases h with h | ⟨d, hd, hsession, hstage⟩ | ⟨d, hd, hidentity, hshard, hstage⟩
  · exact hindex h
  · by_cases hdc : d = c
    · subst hdc
      exact htracks hsession hstage
    · exact Or.inr (Or.inl ⟨d, mem_advance_of_ne hc hd hdc, hsession, hstage⟩)
  · by_cases hdc : d = c
    · subst hdc
      exact hevict hidentity hshard hstage
    · exact Or.inr (Or.inr ⟨d, mem_advance_of_ne hc hd hdc, hidentity, hshard, hstage⟩)

/-- A call that does not track nor evict takes no reason away. -/
theorem Pointed.keep_of_idle {r' : Roster} (h : Pointed r calls shard identity session)
    (hc : calls[n]? = some c) (htracks : ¬ c.stage.Tracks)
    (hevict : ∀ previous, c.stage ≠ .evict previous)
    (hindex : r.index identity = some shard → r'.index identity = some shard) :
    Pointed r' (advance calls n next) shard identity session :=
  h.keep hc (fun hi => Or.inl (hindex hi)) (fun _ ht => absurd ht htracks)
    (fun _ _ he => absurd he (hevict _))

/-- A registration that still has to track is a reason for its own session, and stays one. -/
theorem Pointed.keep_of_tracks {r' : Roster} {d : Call}
    (h : Pointed r calls shard identity session) (hc : calls[n]? = some c)
    (hsession : d.session = c.session) (htracks : d.stage.Tracks)
    (hevict : ∀ previous, c.stage ≠ .evict previous)
    (hindex : r.index identity = some shard → r'.index identity = some shard) :
    Pointed r' (advance calls n (some d)) shard identity session :=
  h.keep hc (fun hi => Or.inl (hindex hi))
    (fun hs _ => Or.inr (Or.inl ⟨d, mem_advance_self hc d, hsession.trans hs, htracks⟩))
    (fun _ _ he => absurd he (hevict _))

/-- A call that stays at its stage is the reason that it was. -/
theorem Pointed.keep_of_stays (h : Pointed r calls shard identity session)
    (hc : calls[n]? = some c) :
    Pointed r (advance calls n (some (c.moved left c.stage))) shard identity session :=
  h.keep hc Or.inl (fun hs ht => Or.inr (Or.inl ⟨_, mem_advance_self hc _, hs, ht⟩))
    (fun hi hs he => Or.inr (Or.inr ⟨_, mem_advance_self hc _, hi, hs, he⟩))

section Pointed

variable {connection : Connection} {at' : Nat}

theorem pointed_hold (hc : calls[n]? = some ⟨connection, at', none, .hold⟩)
    (h : ∀ s i σ, r.holder s i = some σ → Pointed r calls s i σ)
    (hσ : (r.hold at' connection.identity connection.session).holder shard connection.identity
      = some session) :
    Pointed (r.hold at' connection.identity connection.session)
      (advance calls n (some (Call.moved ⟨connection, at', none, .hold⟩ left .track))) shard
      connection.identity session := by
  by_cases hshard : shard = at'
  · -- the session that now holds the identity has still to point the index here
    obtain rfl : connection.session = session :=
      Option.some.inj ((if_pos ⟨hshard, rfl⟩).symm.trans hσ)
    exact Or.inr (Or.inl ⟨_, mem_advance_self hc _, rfl, trivial⟩)
  · have hold := h _ _ _ ((if_neg fun hp => hshard hp.1).symm.trans hσ)
    exact hold.keep_of_tracks hc rfl trivial (fun _ he => Stage.noConfusion he) id

/-- The index moves away from a shard only if the eviction there comes next. -/
theorem pointed_track {home : Session → Option (Nat × String)}
    (hc : calls[n]? = some ⟨connection, at', none, .track⟩)
    (hhome : home connection.session = some (at', connection.identity))
    (hat : home session = some (shard, connection.identity))
    (h : Pointed r calls shard connection.identity session) :
    Pointed (r.track connection.identity at')
      (advance calls n ((Call.next ⟨connection, at', none, .track⟩ r).map
        (Call.moved ⟨connection, at', none, .track⟩ left))) shard connection.identity session := by
  by_cases hshard : shard = at'
  · exact Or.inl ((if_pos rfl).trans (congrArg some hshard.symm))
  · -- the call tracks elsewhere
    refine h.keep hc ?_ ?_ (fun _ _ he => Stage.noConfusion he)
    · intro hindex
      have hnext : Call.next ⟨connection, at', none, .track⟩ r = some (.evict shard) := by
        simp only [Call.next, hindex]
        exact if_neg hshard
      rw [hnext]
      exact Or.inr (Or.inr ⟨_, mem_advance_self hc _, rfl, Ne.symm hshard, rfl⟩)
    · -- a session is at home at one shard only
      intro hs _
      have hs : connection.session = session := hs
      rw [hs] at hhome
      exact absurd (congrArg Prod.fst (Option.some.inj (hat.symm.trans hhome))) hshard

/-- Whoever is still held after an eviction was not the one to be evicted. -/
theorem pointed_evict {home : Session → Option (Nat × String)} {previous : Nat}
    (hc : calls[n]? = some ⟨connection, at', none, .evict previous⟩)
    (hhome : home connection.session = some (at', connection.identity))
    (hheld : ∀ s i σ, r.holder s i = some σ → home σ = some (s, i))
    (h : ∀ s i σ, r.holder s i = some σ → Pointed r calls s i σ)
    (hσ : (r.evict previous connection.identity connection.session).holder shard
      connection.identity = some session) :
    Pointed (r.evict previous connection.identity connection.session) (advance calls n next) shard
      connection.identity session := by
  by_cases hevicted : shard = previous ∧ r.holder shard connection.identity
      ≠ some connection.session
  · have hnone : none = some session :=
      (if_pos ⟨hevicted.1, rfl, hevicted.2⟩).symm.trans hσ
    cases hnone
  · have hold : r.holder shard connection.identity = some session :=
      (if_neg fun hp => hevicted ⟨hp.1, hp.2.2⟩).symm.trans hσ
    refine (h _ _ _ hold).keep hc Or.inl (fun _ ht => ht.elim) ?_
    -- only the session to keep could still be held there, but its home is elsewhere
    intro _ hne he
    obtain rfl : previous = shard := Stage.evict.inj he
    have hkeep : r.holder previous connection.identity = some connection.session :=
      Classical.not_not.1 fun hkeep => hevicted ⟨rfl, hkeep⟩
    have heq := hhome.symm.trans (hheld _ _ _ hkeep)
    exact absurd (congrArg Prod.fst (Option.some.inj heq)) hne

theorem pointed_letGo (hc : calls[n]? = some ⟨connection, at', none, .letGo⟩)
    (h : ∀ s i σ, r.holder s i = some σ → Pointed r calls s i σ)
    (hσ : (r.letGo at' connection.identity connection.session).holder shard connection.identity
      = some session) :
    Pointed (r.letGo at' connection.identity connection.session) (advance calls n next) shard
      connection.identity session := by
  have hold : r.holder shard connection.identity = some session := by
    simp only [Roster.letGo] at hσ
    split at hσ
    · exact absurd hσ.symm (Option.some_ne_none _)
    · exact hσ
  exact (h _ _ _ hold).keep_of_idle hc id (fun _ he => Stage.noConfusion he) id

/-- Somebody who holds the identity where the index points keeps it from being forgotten. -/
theorem pointed_untrack (hc : calls[n]? = some ⟨connection, at', none, .untrack⟩)
    (h : ∀ s i σ, r.holder s i = some σ → Pointed r calls s i σ)
    (hσ : (r.untrack connection.identity at').holder shard connection.identity = some session) :
    Pointed (r.untrack connection.identity at') (advance calls n next) shard connection.identity
      session := by
  rw [Roster.untrack] at hσ ⊢
  by_cases hgone : r.Deserted connection.identity at'
  · rw [if_pos hgone] at hσ ⊢
    refine (h _ _ _ hσ).keep_of_idle hc id (fun _ he => Stage.noConfusion he) ?_
    intro hindex
    obtain rfl := Option.some.inj (hindex.symm.trans hgone.1)
    exact absurd (hσ.symm.trans hgone.2) (Option.some_ne_none _)
  · rw [if_neg hgone] at hσ ⊢
    exact (h _ _ _ hσ).keep_of_idle hc id (fun _ he => Stage.noConfusion he) id

end Pointed

/-- **A step keeps every holder pointed at.** Each call that has come past letting go is for a
connection at its home, and only a connection at home is held. -/
theorem pointed_step {home : Session → Option (Nat × String)} (hc : calls[n]? = some c)
    (hcalls : ∀ d ∈ calls, d.stage ≠ .letGo → home d.session = some (d.shard, d.identity))
    (hheld : ∀ s i σ, r.holder s i = some σ → home σ = some (s, i))
    (h : ∀ s i σ, r.holder s i = some σ → Pointed r calls s i σ)
    (hσ : (c.after r).holder shard identity = some session) :
    Pointed (c.after r) (advance calls n ((c.next r).map (c.moved left))) shard identity
      session := by
  have hhome := hcalls c (List.mem_of_getElem? hc)
  by_cases hidentity : identity = c.identity
  · subst hidentity
    obtain ⟨connection, at', leaving, stage⟩ := c
    cases leaving with
    | some l => exact (h _ _ _ hσ).keep_of_stays hc
    | none =>
        cases stage with
        | assign =>
            exact (h _ _ _ hσ).keep_of_tracks hc rfl trivial
              (fun _ he => Stage.noConfusion he) id
        | hold => exact pointed_hold hc h hσ
        | track => exact pointed_track hc (hhome nofun) (hheld _ _ _ hσ) (h _ _ _ hσ)
        | evict previous => exact pointed_evict hc (hhome nofun) hheld h hσ
        | setOnline =>
            exact (h _ _ _ hσ).keep_of_idle hc id (fun _ he => Stage.noConfusion he) id
        | letGo => exact pointed_letGo hc h hσ
        | untrack => exact pointed_untrack hc h hσ
        | announce kind =>
            exact (h _ _ _ hσ).keep_of_idle hc id (fun _ he => Stage.noConfusion he) id
  · obtain ⟨hholder, hindex, -⟩ := c.after_of_ne hidentity r
    have hold : r.holder shard identity = some session := (hholder shard).symm.trans hσ
    refine (h _ _ _ hold).keep hc (fun hi => Or.inl (hindex.trans hi)) ?_ ?_
    · intro hs ht
      have hpast : c.stage ≠ .letGo := fun he => by
        rw [he] at ht
        exact ht
      have heq := (hhome hpast).symm.trans (hs ▸ hheld _ _ _ hold)
      exact absurd (congrArg Prod.snd (Option.some.inj heq)).symm hidentity
    · exact fun hi _ _ => absurd hi.symm hidentity

/-- A reason for a presence bit that is not set stays one, unless it is the call that proceeds. -/
theorem Marked.keep {r' : Roster} (h : Marked r calls identity) (hc : calls[n]? = some c)
    (honline : r.online identity = true → Marked r' (advance calls n next) identity)
    (hsettles : c.identity = identity → c.stage.Settles →
      Marked r' (advance calls n next) identity) :
    Marked r' (advance calls n next) identity := by
  rcases h with h | ⟨d, hd, hidentity, hstage⟩
  · exact honline h
  · -- the reason is a call: either the one that proceeds, or one that stays where it is
    by_cases hdc : d = c
    · subst hdc
      exact hsettles hidentity hstage
    · exact Or.inr ⟨d, mem_advance_of_ne hc hd hdc, hidentity, hstage⟩

/-- Whoever has pointed the index at its shard has still to set the presence bit. -/
theorem settles_of_track (connection : Connection) (at' : Nat) (r : Roster) :
    ∃ stage, Call.next ⟨connection, at', none, .track⟩ r = some stage ∧ stage.Settles := by
  simp only [Call.next]
  split
  · split
    · exact ⟨_, rfl, trivial⟩
    · exact ⟨_, rfl, trivial⟩
  · exact ⟨_, rfl, trivial⟩

/-- **A step keeps every identity in the index marked.** -/
theorem marked_step (hc : calls[n]? = some c)
    (h : ∀ s i, r.index i = some s → Marked r calls i)
    (hs : (c.after r).index identity = some shard) :
    Marked (c.after r) (advance calls n ((c.next r).map (c.moved left))) identity := by
  by_cases hidentity : identity = c.identity
  · subst hidentity
    obtain ⟨connection, shard', leaving, stage⟩ := c
    cases leaving with
    | some l =>
        exact (h _ _ hs).keep hc Or.inl
          (fun hi hsettles => Or.inr ⟨_, mem_advance_self hc _, hi, hsettles⟩)
    | none =>
        cases stage with
        | assign => exact (h _ _ hs).keep hc Or.inl (fun _ => False.elim)
        | hold => exact (h _ _ hs).keep hc Or.inl (fun _ => False.elim)
        | track =>
            -- the bit is still to be set by the call that has just pointed the index here
            obtain ⟨stage, hnext, hsettles⟩ := settles_of_track connection shard' r
            rw [hnext]
            exact Or.inr ⟨_, mem_advance_self hc _, rfl, hsettles⟩
        | evict previous => exact Or.inr ⟨_, mem_advance_self hc _, rfl, trivial⟩
        | setOnline => exact Or.inl (Bool.or_eq_true_iff.2 (Or.inl (decide_eq_true rfl)))
        | letGo => exact (h _ _ hs).keep hc Or.inl (fun _ => False.elim)
        | untrack =>
            simp only [Call.after, Roster.untrack] at hs ⊢
            by_cases hgone : r.Deserted connection.identity shard'
            · rw [if_pos hgone] at hs
              have hnone : none = some shard := (if_pos rfl).symm.trans hs
              cases hnone
            · rw [if_neg hgone] at hs ⊢
              exact (h _ _ hs).keep hc Or.inl (fun _ => False.elim)
        | announce kind => exact (h _ _ hs).keep hc Or.inl (fun _ => False.elim)
  · obtain ⟨-, hindex, honline⟩ := c.after_of_ne hidentity r
    refine (h shard identity (hindex.symm.trans hs)).keep hc ?_ ?_
    · exact fun ho => Or.inl (honline.trans ho)
    · exact fun hi _ => absurd hi.symm hidentity

/-- A reason for a presence bit that is set stays one, unless it is the call that proceeds. -/
theorem Explained.keep {r' : Roster} (h : Explained r calls identity) (hc : calls[n]? = some c)
    (hheld : ∀ shard, r'.holder shard identity = r.holder shard identity)
    (hindex : r'.index identity = r.index identity)
    (hregisters : c.identity = identity → c.stage.Tracks ∨ c.stage.Settles →
      Explained r' (advance calls n next) identity)
    (hleaves : c.identity = identity → c.stage.Leaves → r.index identity = some c.shard →
      Explained r' (advance calls n next) identity) :
    Explained r' (advance calls n next) identity := by
  rcases h with ⟨s, σ, h⟩ | ⟨d, hd, hidentity, hstage⟩ | ⟨d, hd, hidentity, hstage, hpoints⟩
  · exact Or.inl ⟨s, σ, (hheld s).trans h⟩
  · by_cases hdc : d = c
    · subst hdc
      exact hregisters hidentity hstage
    · exact Or.inr (Or.inl ⟨d, mem_advance_of_ne hc hd hdc, hidentity, hstage⟩)
  · by_cases hdc : d = c
    · subst hdc
      exact hleaves hidentity hstage hpoints
    · exact Or.inr (Or.inr ⟨d, mem_advance_of_ne hc hd hdc, hidentity, hstage, hindex.trans hpoints⟩)

/-- A call that is over with the identity takes no reason for its presence bit away. -/
theorem Explained.keep_of_idle {r' : Roster} (h : Explained r calls identity)
    (hc : calls[n]? = some c) (hregisters : ¬ (c.stage.Tracks ∨ c.stage.Settles))
    (hleaves : ¬ c.stage.Leaves)
    (hheld : ∀ shard, r'.holder shard identity = r.holder shard identity)
    (hindex : r'.index identity = r.index identity) :
    Explained r' (advance calls n next) identity :=
  h.keep hc hheld hindex (fun _ ht => absurd ht hregisters) (fun _ hl => absurd hl hleaves)

section Explained

variable {connection : Connection} {at' : Nat}

/-- Whoever lets go will look after the presence bit, or somebody else is about to set it anyway: the
reason why the index could point elsewhere is a reason for the bit, too. -/
theorem explained_of_letGo {home : Session → Option (Nat × String)}
    (hc : calls[n]? = some ⟨connection, at', none, .letGo⟩)
    (hcalls : ∀ d ∈ calls, d.stage ≠ .letGo → home d.session = some (d.shard, d.identity))
    (hhome : home connection.session = some (at', connection.identity))
    (h : Pointed r calls at' connection.identity connection.session) :
    Explained (r.letGo at' connection.identity connection.session)
      (advance calls n (some (Call.moved ⟨connection, at', none, .letGo⟩ left .untrack)))
      connection.identity := by
  rcases h with hindex | ⟨d, hd, hs, ht⟩ | ⟨d, hd, hi, -, hstage⟩
  · exact Or.inr (Or.inr ⟨_, mem_advance_self hc _, rfl, trivial, hindex⟩)
  · have hpast : d.stage ≠ .letGo := fun he => by
      rw [he] at ht
      exact ht
    have heq := (hcalls d hd hpast).symm.trans (hs ▸ hhome)
    refine Or.inr (Or.inl ⟨d, mem_advance_of_ne hc hd ?_, ?_, Or.inl ht⟩)
    · rintro rfl
      exact ht
    · exact congrArg Prod.snd (Option.some.inj heq)
  · refine Or.inr (Or.inl ⟨d, mem_advance_of_ne hc hd ?_, hi, Or.inr ?_⟩)
    · rintro rfl
      exact Stage.noConfusion hstage
    · rw [hstage]
      trivial

/-- Nothing comes of letting go what somebody else holds. -/
theorem explained_letGo_of_not_held (hc : calls[n]? = some ⟨connection, at', none, .letGo⟩)
    (hheld : r.holder at' connection.identity ≠ some connection.session)
    (h : Explained r calls connection.identity) :
    Explained (r.letGo at' connection.identity connection.session) (advance calls n next)
      connection.identity := by
  refine h.keep_of_idle hc (fun ht => ht.elim id id) id (fun s => if_neg ?_) rfl
  rintro ⟨rfl, -, hp⟩
  exact hheld hp

/-- If the call does not clear the bit although the index points to its shard, somebody is back. -/
theorem explained_untrack (hc : calls[n]? = some ⟨connection, at', none, .untrack⟩)
    (h : r.online connection.identity = true → Explained r calls connection.identity)
    (ho : (r.untrack connection.identity at').online connection.identity = true) :
    Explained (r.untrack connection.identity at') (advance calls n next) connection.identity := by
  rw [Roster.untrack] at ho ⊢
  by_cases hgone : r.Deserted connection.identity at'
  · rw [if_pos hgone] at ho
    simp at ho
  · rw [if_neg hgone] at ho ⊢
    refine (h ho).keep hc (fun _ => rfl) rfl (fun _ ht => ht.elim False.elim False.elim) ?_
    intro _ _ hp
    obtain ⟨σ, hσ⟩ := Option.ne_none_iff_exists'.1 fun hn => hgone ⟨hp, hn⟩
    exact Or.inl ⟨at', σ, hσ⟩

end Explained

/-- **A step keeps every presence bit explained**, unless it sets the bit too late. -/
theorem explained_step {home : Session → Option (Nat × String)} (hc : calls[n]? = some c)
    (hcalls : ∀ d ∈ calls, d.stage ≠ .letGo → home d.session = some (d.shard, d.identity))
    (hheld : ∀ s i σ, r.holder s i = some σ → home σ = some (s, i))
    (hpointed : ∀ s i σ, r.holder s i = some σ → Pointed r calls s i σ)
    (h : r.online identity = true → Explained r calls identity)
    (hlate : c.identity = identity → ¬ c.MarksLate r)
    (ho : (c.after r).online identity = true) :
    Explained (c.after r) (advance calls n ((c.next r).map (c.moved left))) identity := by
  by_cases hidentity : identity = c.identity
  · subst hidentity
    obtain ⟨connection, at', leaving, stage⟩ := c
    cases leaving with
    | some l =>
        exact (h ho).keep hc (fun _ => rfl) rfl
          (fun hi hr => Or.inr (Or.inl ⟨_, mem_advance_self hc _, hi, hr⟩))
          (fun hi hl hp => Or.inr (Or.inr ⟨_, mem_advance_self hc _, hi, hl, hp⟩))
    | none =>
        cases stage with
        | assign => exact Or.inr (Or.inl ⟨_, mem_advance_self hc _, rfl, Or.inl trivial⟩)
        | hold => exact Or.inr (Or.inl ⟨_, mem_advance_self hc _, rfl, Or.inl trivial⟩)
        | track =>
            obtain ⟨stage, hnext, hsettles⟩ := settles_of_track connection at' r
            rw [hnext]
            exact Or.inr (Or.inl ⟨_, mem_advance_self hc _, rfl, Or.inr hsettles⟩)
        | evict previous =>
            exact Or.inr (Or.inl ⟨_, mem_advance_self hc _, rfl, Or.inr trivial⟩)
        | setOnline =>
            -- the bit is set in time, so the connection itself holds the identity
            exact Or.inl
              ⟨at', connection.session, Classical.not_not.1 fun hne => hlate rfl ⟨rfl, rfl, hne⟩⟩
        | letGo =>
            by_cases hmine : r.holder at' connection.identity = some connection.session
            · have hnext : Call.next ⟨connection, at', none, .letGo⟩ r = some .untrack :=
                if_pos hmine
              rw [hnext]
              exact explained_of_letGo hc hcalls (hheld _ _ _ hmine) (hpointed _ _ _ hmine)
            · exact explained_letGo_of_not_held hc hmine (h ho)
        | untrack => exact explained_untrack hc h ho
        | announce kind =>
            exact (h ho).keep_of_idle hc (fun ht => ht.elim id id) id (fun _ => rfl) rfl
  · obtain ⟨hholder, hindex, honline⟩ := c.after_of_ne hidentity r
    exact (h (honline.symm.trans ho)).keep hc hholder hindex
      (fun hi => absurd hi.symm hidentity) (fun hi => absurd hi.symm hidentity)

/-- A presence bit stays set until a call clears it. -/
theorem online_after (h : r.online identity = true) (hclears : c.identity = identity → ¬ c.Clears r) :
    (c.after r).online identity = true := by
  by_cases hidentity : identity = c.identity
  · subst hidentity
    obtain ⟨connection, shard', leaving, stage⟩ := c
    cases leaving with
    | some l => exact h
    | none =>
        cases stage with
        | setOnline => exact Bool.or_eq_true_iff.2 (Or.inr h)
        | untrack =>
            have hgone : ¬ r.Deserted connection.identity shard' :=
              fun hg => hclears rfl ⟨rfl, rfl, hg⟩
            simp only [Call.after, Roster.untrack, if_neg hgone]
            exact h
        | _ => exact h
  · rw [(c.after_of_ne hidentity r).2.2]
    exact h

theorem not_online_after (h : c.Clears r) : (c.after r).online c.identity = false := by
  obtain ⟨connection, shard', leaving, stage⟩ := c
  obtain ⟨rfl, rfl, hgone⟩ := h
  simp only [Call.after, Roster.untrack]
  rw [if_pos hgone]
  simp

end Step

/-! ## What holds after every move -/

/-- What holds however many calls are under way, as long as the pool is not given up. -/
structure Coherent (w : Turnstile) : Prop where
  lobby : w.toLobby.Sound
  /-- Calls are for connections at their homes. An unregistration that somebody begins elsewhere comes
  to nothing before it is asked where it is. -/
  called : ∀ c ∈ w.calls, c.stage ≠ .letGo → w.home c.session = some (c.shard, c.identity)
  pointed : ∀ shard identity session, w.exchange.roster.holder shard identity = some session →
    Pointed w.exchange.roster w.calls shard identity session
  marked : ∀ shard identity, w.exchange.roster.index identity = some shard →
    Marked w.exchange.roster w.calls identity

variable {w : Turnstile} {x : Exchange} {c : Call} {n : Nat} {session : Session} {shard : Nat}
  {identity : String} {history : List Move} {move : Move}

theorem coherent_start (hx : x.Vacant) : (start x).Coherent where
  lobby := Lobby.sound_start hx
  called := fun _ h => absurd h List.not_mem_nil
  pointed := fun s i _ h => absurd ((hx.holder s i).symm.trans h).symm (Option.some_ne_none _)
  marked := fun _ i h => absurd ((hx.index i).symm.trans h).symm (Option.some_ne_none _)

theorem Coherent.performs (hw : w.Coherent) (hc : c ∈ w.calls) : c.Performs w.exchange := by
  refine Call.perform_eq hw.lobby.keyed hw.lobby.reachable hw.lobby.well fun hhold => ?_
  have hhome := hw.called c hc fun he => Stage.noConfusion (hhold.symm.trans he)
  obtain ⟨-, d, hd, hidentity, hsession⟩ := hw.lobby.connection hhome
  refine ⟨hw.lobby.isSome_shard hhome, ?_⟩
  rw [Exchange.owner_eq hd, hidentity, hsession]

/-- Whoever has let go of an identity held it, so its call is for a connection at its home. -/
theorem Coherent.home_of_next (hw : w.Coherent) (hc : c ∈ w.calls) {stage : Stage}
    (hnext : c.next w.exchange.roster = some stage) (hpast : stage ≠ .letGo) :
    w.home c.session = some (c.shard, c.identity) := by
  by_cases hstage : c.stage = .letGo
  · obtain ⟨connection, at', leaving, stage'⟩ := c
    obtain rfl : stage' = _ := hstage
    cases leaving with
    | some l => exact absurd (Option.some.inj hnext).symm hpast
    | none =>
        by_cases hmine : w.exchange.roster.holder at' connection.identity
            = some connection.session
        · exact hw.lobby.held _ _ _ hmine
        · have hnone : none = some stage := (if_neg hmine).symm.trans hnext
          cases hnone
  · exact hw.called c hc hstage

theorem coherent_proceed (hw : w.Coherent) (n : Nat) : (w.proceed n).Coherent := by
  cases hc : w.calls[n]? with
  | none =>
      rw [proceed, hc]
      exact hw
  | some c =>
      have hmem := List.mem_of_getElem? hc
      obtain ⟨⟨left, hnext⟩, hroster, hground⟩ := hw.performs hmem
      rw [proceed_eq hc, hnext]
      constructor
      · refine hw.lobby.of_ground hground ?_ w.begun
        rw [hroster]
        intro shard identity session hσ
        rcases Call.holder_of_after hσ with hσ | ⟨hhold, rfl, rfl, rfl⟩
        · exact hw.lobby.held _ _ _ hσ
        · exact hw.called c hmem fun he => Stage.noConfusion (hhold.symm.trans he)
      · intro d hd hpast
        refine (congrFun (Lobby.home_of_ground (congrArg Ground.owner hground) w.begun) _).trans ?_
        rcases mem_advance hd with hd | hd
        · exact hw.called d hd hpast
        · obtain ⟨stage, hstage, rfl⟩ := Option.map_eq_some_iff.1 hd
          have hhome := hw.home_of_next hmem hstage hpast
          exact hhome
      · rw [hroster]
        exact fun _ _ _ hσ => pointed_step hc hw.called hw.lobby.held hw.pointed hσ
      · rw [hroster]
        exact fun _ _ hs => marked_step hc hw.marked hs

/-- One more call takes no reason away, and is for a connection at its home, unless it begins with
letting go. -/
theorem coherent_begin (hw : w.Coherent) (session : Session) {shard : Nat} {stage : Stage}
    (hstage : stage ≠ .letGo → w.admitted.get? session = some shard) :
    (w.begin session shard stage).Coherent := by
  have hmore := fun c (hc : c ∈ w.calls) => mem_begin_of_mem hc session shard stage
  have hexchange := exchange_begin w session shard stage
  have hlobby : (w.begin session shard stage).toLobby = w.toLobby := by
    rw [begin]
    split <;> rfl
  constructor
  · rw [hlobby]
    exact hw.lobby
  · intro c hc hpast
    rw [hlobby]
    rcases mem_begin hc with hc | ⟨-, rfl, rfl, hconnection⟩
    · exact hw.called c hc hpast
    · have hsession : c.session = session := Exchange.session_eq hw.lobby.keyed hconnection
      rw [hsession]
      exact Lobby.home_of_connection (hstage hpast) hconnection
  · rw [hexchange]
    intro s i σ hσ
    rcases hw.pointed s i σ hσ with h | ⟨c, hc, h⟩ | ⟨c, hc, h⟩
    · exact Or.inl h
    · exact Or.inr (Or.inl ⟨c, hmore c hc, h⟩)
    · exact Or.inr (Or.inr ⟨c, hmore c hc, h⟩)
  · rw [hexchange]
    intro s i hs
    rcases hw.marked s i hs with h | ⟨c, hc, h⟩
    · exact Or.inl h
    · exact Or.inr ⟨c, hmore c hc, h⟩

/-- **Every move but to give up the pool keeps the three places coherent.** -/
theorem coherent_act (hw : w.Coherent) (hpool : move ≠ .abandon) : (w.act move).Coherent := by
  cases move with
  | accept identity remoteAddress capacity =>
      obtain ⟨hlobby, hroster, -, -, hkept⟩ :=
        Lobby.accept_spec hw.lobby identity remoteAddress capacity
      refine ⟨hlobby, fun c hc hpast => (hkept _ _ (hw.called c hc hpast)).1, ?_, ?_⟩
      · intro s i σ hσ
        simp only [act, hroster] at hσ ⊢
        exact hw.pointed s i σ hσ
      · intro s i hs
        simp only [act, hroster] at hs ⊢
        exact hw.marked s i hs
  | register session =>
      rw [act]
      split
      · next shard hawaited =>
          have h : (w.begin session shard .assign).Coherent :=
            coherent_begin hw session fun _ => admitted_of_awaited hawaited
          exact ⟨h.lobby.of_ground rfl h.lobby.held _, h.called, h.pointed, h.marked⟩
      · exact hw
  | fail session =>
      rw [act]
      split
      · next shard hawaited =>
          have hroster := w.exchange.roster_releaseLoad shard
          have hground := w.exchange.ground_releaseLoad shard
          refine ⟨hw.lobby.of_ground hground ?_ w.begun, ?_, ?_, ?_⟩
          · rw [hroster]
            exact hw.lobby.held
          · intro c hc hpast
            refine (congrFun (Lobby.home_of_ground (congrArg Ground.owner hground) w.begun) _).trans ?_
            exact hw.called c hc hpast
          · rw [hroster]
            exact hw.pointed
          · rw [hroster]
            exact hw.marked
      · exact hw
  | unregister session shard =>
      rw [act]
      split
      · exact coherent_begin hw session fun h => absurd rfl h
      · exact hw
  | proceed n => exact coherent_proceed hw n
  | abandon => exact absurd rfl hpool

theorem coherent_run (hx : x.Vacant) (hpool : .abandon ∉ history) :
    ((start x).run history).Coherent := by
  -- a history is looked at from its end: what was before is the start of the same turnstile
  induction history using List.reverseRecOn with
  | nil => exact coherent_start hx
  | append_singleton history move ih =>
      rw [List.mem_append, List.mem_singleton, not_or] at hpool
      rw [run_append]
      exact coherent_act (ih hpool.1) (Ne.symm hpool.2)

/-! ## Presence bits that nobody answers for -/

/-- A move clears the presence bit of an identity. -/
def Clears (w : Turnstile) (move : Move) (identity : String) : Prop :=
  ∃ n c, move = .proceed n ∧ w.calls[n]? = some c ∧ c.identity = identity ∧
    c.Clears w.exchange.roster

/-- In the history of a turnstile, a call set the presence bit of an identity when its connection had
lost it already, and the bit was not cleared since. -/
inductive LateMark (w : Turnstile) (identity : String) : List Move → Prop
  | mark {history : List Move} {n : Nat} {c : Call} (hc : (w.run history).calls[n]? = some c)
      (hidentity : c.identity = identity) (hlate : c.MarksLate (w.run history).exchange.roster) :
      LateMark w identity (history ++ [.proceed n])
  | keep {history : List Move} {move : Move} (h : LateMark w identity history)
      (hclears : ¬ (w.run history).Clears move identity) : LateMark w identity (history ++ [move])

theorem lateMark_append :
    LateMark w identity (history ++ [move]) ↔
      (∃ n c, move = .proceed n ∧ (w.run history).calls[n]? = some c ∧ c.identity = identity ∧
        c.MarksLate (w.run history).exchange.roster) ∨
      (LateMark w identity history ∧ ¬ (w.run history).Clears move identity) := by
  constructor
  · intro h
    generalize hl : history ++ [move] = l at h
    cases h with
    | mark hc hidentity hlate =>
        obtain ⟨rfl, hmove⟩ := List.append_inj' hl rfl
        exact Or.inl ⟨_, _, List.singleton_inj.1 hmove, hc, hidentity, hlate⟩
    | keep h hclears =>
        obtain ⟨rfl, hmove⟩ := List.append_inj' hl rfl
        obtain rfl := List.singleton_inj.1 hmove
        exact Or.inr ⟨h, hclears⟩
  · intro h
    rcases h with ⟨n, c, rfl, hc, hidentity, hlate⟩ | ⟨h, hclears⟩
    · exact .mark hc hidentity hlate
    · exact .keep h hclears

/-- A move that performs no step of a call leaves the roster alone, and every call under way. -/
theorem act_of_not_proceed (hw : w.Coherent)
    (h : ∀ n c, move = .proceed n → w.calls[n]? ≠ some c) :
    (w.act move).exchange.roster = w.exchange.roster ∧ ∀ c ∈ w.calls, c ∈ (w.act move).calls := by
  cases move with
  | accept identity remoteAddress capacity =>
      obtain ⟨-, hroster, -⟩ := Lobby.accept_spec hw.lobby identity remoteAddress capacity
      exact ⟨hroster, fun c hc => hc⟩
  | register session =>
      rw [act]
      split
      · exact ⟨congrArg Exchange.roster (exchange_begin w ..),
          fun c hc => mem_begin_of_mem hc ..⟩
      · exact ⟨rfl, fun c hc => hc⟩
  | fail session =>
      rw [act]
      split
      · exact ⟨w.exchange.roster_releaseLoad _, fun c hc => hc⟩
      · exact ⟨rfl, fun c hc => hc⟩
  | unregister session shard =>
      rw [act]
      split
      · exact ⟨congrArg Exchange.roster (exchange_begin w ..),
          fun c hc => mem_begin_of_mem hc ..⟩
      · exact ⟨rfl, fun c hc => hc⟩
  | proceed n =>
      cases hc : w.calls[n]? with
      | none =>
          rw [act, proceed, hc]
          exact ⟨rfl, fun c hc => hc⟩
      | some c => exact absurd hc (h n c rfl)
  | abandon => exact ⟨rfl, fun c hc => hc⟩

/-- Whoever is online is there, is coming or leaving, or was marked too late. -/
theorem explained_run (hx : x.Vacant) (hpool : .abandon ∉ history) (identity : String)
    (ho : ((start x).run history).exchange.roster.online identity = true)
    (hlate : ¬ LateMark (start x) identity history) :
    Explained ((start x).run history).exchange.roster ((start x).run history).calls identity := by
  induction history using List.reverseRecOn with
  | nil => exact absurd ((hx.online identity).symm.trans ho) Bool.false_ne_true
  | append_singleton history move ih =>
      rw [List.mem_append, not_or] at hpool
      have hw := coherent_run hx hpool.1
      rw [run_append] at ho ⊢
      rw [lateMark_append] at hlate
      replace ih := ih hpool.1
      generalize (start x).run history = w at *
      -- a late mark from before is there still, unless this very move cleared it
      have hbefore : w.exchange.roster.online identity = true →
          ¬ w.Clears move identity → Explained w.exchange.roster w.calls identity :=
        fun hon hclears => ih hon fun hmark => hlate (Or.inr ⟨hmark, hclears⟩)
      by_cases hstep : ∃ n c, move = .proceed n ∧ w.calls[n]? = some c
      · obtain ⟨n, c, rfl, hc⟩ := hstep
        obtain ⟨⟨left, hnext⟩, hroster, -⟩ := hw.performs (List.mem_of_getElem? hc)
        rw [act, proceed_eq hc] at ho ⊢
        rw [hroster] at ho
        rw [hroster, hnext]
        have hintime : c.identity = identity → ¬ c.MarksLate w.exchange.roster :=
          fun hi hm => hlate (Or.inl ⟨n, c, rfl, hc, hi, hm⟩)
        refine explained_step hc hw.called hw.lobby.held hw.pointed (fun hon => hbefore hon ?_) hintime ho
        intro hclear
        obtain ⟨n', c', hn, hc', rfl, hclears⟩ := hclear
        cases hn
        obtain rfl := Option.some.inj (hc.symm.trans hc')
        exact Bool.false_ne_true ((not_online_after hclears).symm.trans ho)
      · obtain ⟨hroster, hcalls⟩ :=
          act_of_not_proceed hw fun n c hn hc => hstep ⟨n, c, hn, hc⟩
        rw [hroster] at ho ⊢
        have hclears : ¬ w.Clears move identity := by
          intro hclear
          obtain ⟨n, c, hn, hc, -⟩ := hclear
          exact hstep ⟨n, c, hn, hc⟩
        rcases hbefore ho hclears with h | ⟨c, hc, h⟩ | ⟨c, hc, h⟩
        · exact Or.inl h
        · exact Or.inr (Or.inl ⟨c, hcalls c hc, h⟩)
        · exact Or.inr (Or.inr ⟨c, hcalls c hc, h⟩)

/-- A late mark is a presence bit that is set. -/
theorem online_of_lateMark (hx : x.Vacant) (hpool : .abandon ∉ history)
    (h : LateMark (start x) identity history) :
    ((start x).run history).exchange.roster.online identity = true := by
  induction h with
  | @mark history n c hc hidentity hlate =>
      rw [List.mem_append, not_or] at hpool
      obtain ⟨-, hroster, -⟩ := (coherent_run hx hpool.1).performs (List.mem_of_getElem? hc)
      rw [run_append, act, proceed_eq hc]
      refine (congrFun (congrArg Roster.online hroster) identity).trans ?_
      rw [Call.after.eq_def, hlate.1, hlate.2.1]
      exact Bool.or_eq_true_iff.2 (Or.inl (decide_eq_true hidentity.symm))
  | @keep history move h hclears ih =>
      rw [List.mem_append, not_or] at hpool
      have hw := coherent_run hx hpool.1
      rw [run_append]
      by_cases hstep : ∃ n c, move = .proceed n ∧ ((start x).run history).calls[n]? = some c
      · obtain ⟨n, c, rfl, hc⟩ := hstep
        obtain ⟨-, hroster, -⟩ := hw.performs (List.mem_of_getElem? hc)
        rw [act, proceed_eq hc]
        refine (congrFun (congrArg Roster.online hroster) identity).trans ?_
        exact online_after (ih hpool.1) fun hi hcl => hclears ⟨n, c, rfl, hc, hi, hcl⟩
      · rw [(act_of_not_proceed hw fun n c hn hc => hstep ⟨n, c, hn, hc⟩).1]
        exact ih hpool.1

/-! ## When every call has returned -/

/-- With no call under way, the index points at whoever is held, and has only who is online. -/
theorem Coherent.of_returned (hw : w.Coherent) (hdone : w.calls = []) (identity : String) :
    (∀ shard session, w.exchange.roster.holder shard identity = some session →
      w.exchange.roster.index identity = some shard) ∧
    ∀ shard, w.exchange.roster.index identity = some shard →
      w.exchange.roster.online identity = true := by
  constructor
  · intro shard session hσ
    have hpointed := hw.pointed shard identity session hσ
    rw [hdone] at hpointed
    rcases hpointed with h | ⟨c, hc, -⟩ | ⟨c, hc, -⟩
    · exact h
    · exact absurd hc List.not_mem_nil
    · exact absurd hc List.not_mem_nil
  · intro shard hs
    have hmarked := hw.marked shard identity hs
    rw [hdone] at hmarked
    rcases hmarked with h | ⟨c, hc, -⟩
    · exact h
    · exact absurd hc List.not_mem_nil

/-- What is held is agreed upon. -/
theorem Coherent.agrees_of_held (hw : w.Coherent) (hdone : w.calls = [])
    (hσ : w.exchange.roster.holder shard identity = some session) :
    w.exchange.roster.Agrees identity := by
  obtain ⟨hindex, honline⟩ := hw.of_returned hdone identity
  have hat := hindex shard session hσ
  refine ⟨?_, ?_, ?_⟩
  · intro s s' σ σ' h h'
    exact Option.some.inj ((hindex s σ h).symm.trans (hindex s' σ' h'))
  · intro s
    constructor
    · intro hs
      obtain rfl := Option.some.inj (hat.symm.trans hs)
      exact ⟨session, hσ⟩
    · intro hheld
      obtain ⟨σ, h⟩ := hheld
      exact hindex s σ h
  · exact ⟨fun _ => ⟨shard, hat⟩, fun ⟨s, hs⟩ => honline s hs⟩

/-- **When every call has returned, the three places agree on an identity just when somebody holds it
or nobody left a late mark.** The connections are any number, under any identities, each registered
once at the shard it was admitted to and unregistered afterwards, as often as anybody likes. Every
section that takes a lock is one step or several, the steps of all calls come in any order, and the
pool is there all the time. -/
theorem agrees_iff_of_returned (hx : x.Vacant) (history : List Move) (hpool : .abandon ∉ history)
    (hdone : ((start x).run history).calls = []) (identity : String) :
    ((start x).run history).exchange.roster.Agrees identity ↔
      (∃ shard session,
        ((start x).run history).exchange.roster.holder shard identity = some session) ∨
      ¬ LateMark (start x) identity history := by
  have hw := coherent_run hx hpool
  constructor
  · intro hagrees
    by_cases hmark : LateMark (start x) identity history
    · -- the bit that was set late is still set, and agreement makes the index and a holder of it
      obtain ⟨shard, hs⟩ := hagrees.online.1 (online_of_lateMark hx hpool hmark)
      obtain ⟨session, hσ⟩ := (hagrees.index shard).1 hs
      exact Or.inl ⟨shard, session, hσ⟩
    · exact Or.inr hmark
  · intro h
    by_cases hheld : ∃ shard session,
        ((start x).run history).exchange.roster.holder shard identity = some session
    · obtain ⟨shard, session, hσ⟩ := hheld
      exact hw.agrees_of_held hdone hσ
    · have hmark := h.resolve_left hheld
      -- nobody is left to explain the bit: no holder, no call, no late mark
      have hoffline : ((start x).run history).exchange.roster.online identity ≠ true := by
        intro ho
        have hexplained := explained_run hx hpool identity ho hmark
        rw [hdone] at hexplained
        rcases hexplained with h | ⟨c, hc, -⟩ | ⟨c, hc, -⟩
        · exact hheld h
        · exact absurd hc List.not_mem_nil
        · exact absurd hc List.not_mem_nil
      have hindex : ∀ shard,
          ((start x).run history).exchange.roster.index identity ≠ some shard :=
        fun shard hs => hoffline ((hw.of_returned hdone identity).2 shard hs)
      refine ⟨?_, ?_, ?_⟩
      · exact fun s _ σ _ hσ _ => absurd ⟨s, σ, hσ⟩ hheld
      · exact fun s => ⟨fun hs => absurd hs (hindex s), fun ⟨σ, hσ⟩ => absurd ⟨s, σ, hσ⟩ hheld⟩
      · exact ⟨fun ho => absurd ho hoffline, fun ⟨s, hs⟩ => absurd hs (hindex s)⟩

/-- The second of two connections is registered while the first one is about to track; both calls
return, and the second connection is agreed upon. -/
theorem agrees_of_overtaken :
    ((start (.new { pool.initialShards := 1, pool.maxShards := 1 } .inMemory 0)).run
      [.accept "ann" none 8, .accept "ann" none 8, .register 0, .proceed 0, .proceed 0,
        .register 1, .proceed 1, .proceed 1, .proceed 1, .proceed 1, .proceed 0, .proceed 1,
        .proceed 0, .proceed 1, .proceed 1, .proceed 0]).exchange.roster.Agrees "ann" :=
  (agrees_iff_of_returned (Exchange.vacant_new _ _ rfl rfl) _ (by decide)
    (List.eq_nil_of_length_eq_zero (by decide)) "ann").2 (Or.inl ⟨0, 1, by decide⟩)

/-- The second of two connections comes and goes while the first one is about to set the presence
bit. Then every call has returned, nobody holds the identity, the index does not have it, and its
presence bit is set. -/
theorem not_agrees_of_late_mark :
    let w := (start (.new { pool.initialShards := 1, pool.maxShards := 1 } .inMemory 0)).run
      [.accept "ann" none 8, .accept "ann" none 8, .register 0, .proceed 0, .proceed 0, .proceed 0,
        .register 1, .proceed 1, .proceed 1, .proceed 1, .proceed 1, .proceed 1, .proceed 1,
        .proceed 1, .unregister 1 0, .proceed 1, .proceed 1, .proceed 1, .proceed 1, .proceed 1,
        .proceed 0, .proceed 0]
    w.calls = [] ∧ ¬ w.exchange.roster.Agrees "ann" := by
  intro w
  refine ⟨List.eq_nil_of_length_eq_zero (by decide), ?_⟩
  intro hagrees
  have honline : w.exchange.roster.online "ann" = true := by decide
  have hindex : w.exchange.roster.index "ann" = none := by decide
  obtain ⟨shard, hs⟩ := hagrees.online.1 honline
  exact Option.some_ne_none _ (hs.symm.trans hindex)

end Switchboard.Turnstile
