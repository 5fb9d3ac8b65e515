import Switchboard.Proofs.Membership.Effects
import Switchboard.Proofs.Membership.Lobby
import Switchboard.Proofs.Table

/-!
# The life of a connection

A history of visits, in which connections are admitted, registered and unregistered one after
another, writes a `Ledger`. Registries, index, presence, the list of clients, the state of every
connection and what a broker is told can all be read off the ledger: `shows_ledger`.

`Refines` ties a lobby to a ledger. Every visit keeps it (`refines_act`), so every history does
(`refines_run`), and `Refines.shows` reads off the ledger what can be asked.
-/

namespace Switchboard

/-! ## The lobby and the ledger -/

namespace Lobby

/-- What a visit does. -/
def act (w : Lobby) : Visit → Lobby
  | .accept identity remoteAddress capacity => w.accept identity remoteAddress capacity
  | .register session =>
    match w.admitted.get? session with
    | some shard =>
      { w with exchange := (w.exchange.register shard session).2, begun := session :: w.begun }
    | none => w
  | .unregister session =>
    match w.admitted.get? session with
    | some shard => { w with exchange := (w.exchange.unregister shard session).2 }
    | none => w

def run (w : Lobby) (history : List Visit) : Lobby := history.foldl act w

/-- Whether a visit may take place: a connection is registered while it is admitted, which ends when
it is closed, and unregistered when it was registered before, no matter what became of it. -/
def Allows (w : Lobby) : Visit → Prop
  | .accept .. => True
  | .register session => (w.admitted.get? session).isSome ∧
      (w.exchange.connection? session).map Connection.isClosed = some false
  | .unregister session => session ∈ w.begun

instance (w : Lobby) : (visit : Visit) → Decidable (w.Allows visit)
  | .accept .. => isTrue trivial
  | .register _ => inferInstanceAs (Decidable (_ ∧ _))
  | .unregister _ => inferInstanceAs (Decidable (_ ∈ _))

/-- Whether every visit of a history may take place when it does. -/
def Permits (w : Lobby) : List Visit → Prop
  | [] => True
  | visit :: history => w.Allows visit ∧ (w.act visit).Permits history

instance decidablePermits : (w : Lobby) → (history : List Visit) → Decidable (w.Permits history)
  | _, [] => isTrue trivial
  | w, visit :: history =>
    have := decidablePermits (w.act visit) history
    inferInstanceAs (Decidable (_ ∧ _))

/-- Whose a session is. -/
def owner (w : Lobby) (session : Session) : Option String :=
  (w.exchange.connection? session).map Connection.identity

/-- A lobby is in the state that a ledger says. -/
structure Refines (w : Lobby) (m : Ledger) : Prop where
  sound : w.Sound
  reads : Reads w.exchange.roster w.home m
  /-- Whoever was registered was admitted before. -/
  housed : ∀ session ∈ w.begun, ∃ home, w.home session = some home
  /-- A session in the ledger is open and belongs to the shard it was admitted to. -/
  live : ∀ identity session, m identity = some session → ∃ c,
    w.exchange.connection? session = some c ∧ c.isClosed = false ∧
      c.shard = w.admitted.get? session
  /-- A session that was registered and is not in the ledger any more is closed and cancelled. -/
  gone : ∀ session ∈ w.begun, (∀ identity, m identity ≠ some session) → ∃ c,
    w.exchange.connection? session = some c ∧ c.isClosed = true ∧ c.isCancelled = true

variable {w : Lobby} {m : Ledger} {x : Exchange} {shard : Nat} {identity : String}
  {session : Session}

theorem refines_start (hx : x.Vacant) : (start x).Refines fun _ => none where
  sound := sound_start hx
  reads := reads_iff.2 fun i => readsAt_of_none rfl (fun s => hx.holder s i) (hx.index i) (hx.online i)
  housed := fun _ h => absurd h List.not_mem_nil
  live := fun _ _ h => absurd h.symm (Option.some_ne_none _)
  gone := fun _ h => absurd h List.not_mem_nil

/-- Admission does not touch the ledger. -/
theorem refines_accept (h : w.Refines m) (identity : String) (remoteAddress : Option SocketAddress)
    (capacity : Nat) : (w.accept identity remoteAddress capacity).Refines m := by
  -- a connection with a home is not touched, and who has none is in no ledger yet
  obtain ⟨hsound, hroster, -, hbegun, hkept⟩ := accept_spec h.sound identity remoteAddress capacity
  generalize w.accept identity remoteAddress capacity = w' at *
  refine ⟨hsound, ?_, ?_, ?_, ?_⟩
  · rw [hroster]
    exact h.reads.mono fun σ home hσ => (hkept σ home hσ).1
  · rw [hbegun]
    intro σ hσ
    obtain ⟨home, hhome⟩ := h.housed σ hσ
    exact ⟨home, (hkept σ home hhome).1⟩
  · intro i σ hσ
    obtain ⟨s, hs⟩ := h.reads.known i σ hσ
    obtain ⟨c, hc, hopen, hshard⟩ := h.live i σ hσ
    obtain ⟨hhome', hconnection⟩ := hkept σ _ hs
    refine ⟨c, hconnection.trans hc, hopen, ?_⟩
    rw [hshard, (h.sound.connection hs).1, (hsound.connection hhome').1]
  · rw [hbegun]
    intro σ hσ hgone
    obtain ⟨home, hhome⟩ := h.housed σ hσ
    obtain ⟨c, hc, hclosed⟩ := h.gone σ hσ hgone
    exact ⟨c, (hkept σ home hhome).2.trans hc, hclosed⟩

/-- What a registration does to a lobby in the state of a ledger: nobody but the session that stands
there for the identity is closed. -/
theorem Refines.register_spec (h : w.Refines m) (hhome : w.home session = some (shard, identity)) :
    ∃ c, w.exchange.connection? session = some c ∧
      (w.exchange.register shard session).2.roster
        = w.exchange.roster.register shard identity session ∧
      (w.exchange.register shard session).2.ground = w.exchange.ground ∧
      Tells w.exchange (w.exchange.register shard session).2 [(.online, identity)] ∧
      ∀ τ, (w.exchange.register shard session).2.connection? τ
        = if τ = session then some { c with shard := some shard }
          else if m identity = some τ then (w.exchange.connection? τ).map (·.close.2)
          else w.exchange.connection? τ := by
  obtain ⟨-, c, hc, rfl, -⟩ := h.sound.connection hhome
  obtain ⟨y, heq, hroster, hground, hpublishing, hconnection⟩ :=
    Exchange.register_spec h.sound.keyed h.sound.reachable h.sound.well
      (h.sound.isSome_shard hhome) hc
  have hnews := (tells_of_eq hpublishing).trans
    (tells_announce y (y.presenceEvent .online shard c))
  rw [kind_presenceEvent] at hnews
  rw [heq]
  refine ⟨c, hc, ?_, ?_, hnews, ?_⟩
  · rw [Exchange.roster_announce, hroster]
  · rw [Exchange.ground_announce, hground]
  · intro τ
    rw [Exchange.connection?_announce, hconnection τ]
    simp only [h.reads.ousted_iff]

/-- What an unregistration does to a lobby in the state of a ledger. -/
theorem Refines.unregister_spec (h : w.Refines m)
    (hhome : w.home session = some (shard, identity)) :
    (w.exchange.unregister shard session).1 = decide (m identity = some session) ∧
      (w.exchange.unregister shard session).2.roster
        = w.exchange.roster.unregister shard identity session ∧
      (w.exchange.unregister shard session).2.ground = w.exchange.ground ∧
      Tells w.exchange (w.exchange.unregister shard session).2
        (if m identity = some session then [(.offline, identity)] else []) ∧
      ∀ τ, (w.exchange.unregister shard session).2.connection? τ
        = if τ = session ∧ m identity = some session then
            (w.exchange.connection? τ).map (·.close.2)
          else w.exchange.connection? τ := by
  obtain ⟨-, c, hc, rfl, -⟩ := h.sound.connection hhome
  have hiff := h.reads.ledger_iff hhome
  obtain ⟨y, heq, hroster, hground, hpublishing, hconnection⟩ :=
    Exchange.unregister_spec h.sound.keyed h.sound.reachable h.sound.well hc shard
  have hquiet := tells_of_eq hpublishing
  simp only [← hiff] at heq hconnection
  by_cases hm : m c.identity = some session
  · -- whoever lets go where the ledger has it is gone from the index, too
    rw [if_pos ⟨hm, h.reads.deserted_letGo (hiff.1 hm)⟩] at heq
    have hnews := hquiet.trans (tells_announce y (y.presenceEvent .offline shard c))
    rw [kind_presenceEvent] at hnews
    rw [heq, if_pos hm]
    refine ⟨rfl, ?_, ?_, hnews, ?_⟩
    · rw [Exchange.roster_announce, hroster]
    · rw [Exchange.ground_announce, hground]
    · intro τ
      rw [Exchange.connection?_announce, hconnection τ]
  · rw [if_neg fun hp => hm hp.1] at heq
    rw [heq, if_neg hm]
    exact ⟨rfl, hroster, hground, hquiet, hconnection⟩

/-- To close the connection of a session in the ledger closes and cancels it. -/
theorem Refines.close (h : w.Refines m) (hm : m identity = some session) :
    ∃ c, (w.exchange.connection? session).map (·.close.2) = some c ∧ c.isClosed = true ∧
      c.isCancelled = true := by
  obtain ⟨c, hc, hopen, -⟩ := h.live identity session hm
  rw [hc]
  exact ⟨c.close.2, rfl, c.closed_close, Connection.cancelled_close hopen⟩

section Changed

variable {y : Exchange} {c : Connection} {i : String} {σ : Session}

/-- After a registration the sessions in the ledger are open. -/
theorem Refines.live_register (h : w.Refines m) (hhome : w.home session = some (shard, identity))
    (hopen : c.isClosed = false)
    (hconnection : ∀ τ, y.connection? τ = if τ = session then some { c with shard := some shard }
      else if m identity = some τ then (w.exchange.connection? τ).map (·.close.2)
      else w.exchange.connection? τ)
    (hσ : m.register identity session i = some σ) :
    ∃ d, y.connection? σ = some d ∧ d.isClosed = false ∧ d.shard = w.admitted.get? σ := by
  rw [Ledger.register] at hσ
  rw [hconnection]
  by_cases hsame : σ = session
  · rw [if_pos hsame, hsame, (h.sound.connection hhome).1]
    exact ⟨_, rfl, hopen, rfl⟩
  · -- another session in the ledger is not the one that was there for the identity
    have hi : i ≠ identity := by
      intro hi
      rw [if_pos hi] at hσ
      exact hsame (Option.some.inj hσ).symm
    rw [if_neg hi] at hσ
    rw [if_neg hsame, if_neg fun hm => hi (h.reads.ledger_inj hσ hm)]
    exact h.live i σ hσ

/-- After a registration whoever was registered before and is not in the ledger is closed. -/
theorem Refines.gone_register (h : w.Refines m)
    (hconnection : ∀ τ, y.connection? τ = if τ = session then some { c with shard := some shard }
      else if m identity = some τ then (w.exchange.connection? τ).map (·.close.2)
      else w.exchange.connection? τ)
    (hσ : σ ∈ session :: w.begun) (hgone : ∀ i, m.register identity session i ≠ some σ) :
    ∃ d, y.connection? σ = some d ∧ d.isClosed = true ∧ d.isCancelled = true := by
  have hne : σ ≠ session := by
    intro hsame
    exact hgone identity ((if_pos rfl).trans (congrArg some hsame.symm))
  have hbegun : σ ∈ w.begun := (List.mem_cons.1 hσ).resolve_left hne
  rw [hconnection, if_neg hne]
  by_cases hm : m identity = some σ
  · -- the session was superseded just now
    rw [if_pos hm]
    exact h.close hm
  · rw [if_neg hm]
    refine h.gone σ hbegun fun i hi => ?_
    by_cases hidentity : i = identity
    · exact hm (hidentity ▸ hi)
    · exact hgone i ((if_neg hidentity).trans hi)

/-- After an unregistration the sessions in the ledger are open. -/
theorem Refines.live_unregister (h : w.Refines m)
    (hconnection : ∀ τ, y.connection? τ = if τ = session ∧ m identity = some session then
      (w.exchange.connection? τ).map (·.close.2) else w.exchange.connection? τ)
    (hσ : m.unregister identity session i = some σ) :
    ∃ d, y.connection? σ = some d ∧ d.isClosed = false ∧ d.shard = w.admitted.get? σ := by
  rw [Ledger.unregister] at hσ
  split at hσ
  · exact absurd hσ.symm (Option.some_ne_none _)
  · next hstays =>
      rw [hconnection, if_neg]
      · exact h.live i σ hσ
      · intro hp
        obtain ⟨rfl, hm⟩ := hp
        exact hstays ⟨h.reads.ledger_inj hσ hm, hσ⟩

/-- After an unregistration whoever was registered before and is not in the ledger is closed. -/
theorem Refines.gone_unregister (h : w.Refines m)
    (hconnection : ∀ τ, y.connection? τ = if τ = session ∧ m identity = some session then
      (w.exchange.connection? τ).map (·.close.2) else w.exchange.connection? τ)
    (hσ : σ ∈ w.begun) (hgone : ∀ i, m.unregister identity session i ≠ some σ) :
    ∃ d, y.connection? σ = some d ∧ d.isClosed = true ∧ d.isCancelled = true := by
  rw [hconnection]
  by_cases hstruck : σ = session ∧ m identity = some session
  · have hm : m identity = some σ := hstruck.2.trans (congrArg some hstruck.1.symm)
    rw [if_pos hstruck]
    exact h.close hm
  · rw [if_neg hstruck]
    refine h.gone σ hσ fun i hi => hgone i ((if_neg ?_).trans hi)
    intro hp
    obtain ⟨rfl, hm⟩ := hp
    exact hstruck ⟨Option.some.inj (hi.symm.trans hm), hm⟩

end Changed

/-- **A registration refines its entry in the ledger.** -/
theorem refines_register (h : w.Refines m) (hhome : w.home session = some (shard, identity))
    (hopen : (w.exchange.connection? session).map Connection.isClosed = some false) :
    ({ w with
      exchange := (w.exchange.register shard session).2
      begun := session :: w.begun } : Lobby).Refines (m.register identity session) ∧
    (w.exchange.register shard session).2.ground = w.exchange.ground ∧
    Tells w.exchange (w.exchange.register shard session).2 [(.online, identity)] := by
  obtain ⟨c, hc, hroster, hground, hnews, hconnection⟩ := h.register_spec hhome
  rw [hc] at hopen
  have hreads := reads_register h.reads hhome
  rw [← hroster] at hreads
  have hhomes := home_of_ground (w := w) (congrArg Ground.owner hground) (session :: w.begun)
  refine ⟨⟨?_, ?_, ?_, ?_, ?_⟩, hground, hnews⟩
  · exact h.sound.of_ground hground (fun s i σ hσ => ((hreads.holder s i σ).1 hσ).2) _
  · rw [hhomes]
    exact hreads
  · rw [hhomes]
    intro σ hσ
    rcases List.mem_cons.1 hσ with rfl | hσ
    · exact ⟨_, hhome⟩
    · exact h.housed σ hσ
  · exact fun i σ hσ => h.live_register hhome (Option.some.inj hopen) hconnection hσ
  · exact fun σ hσ hgone => h.gone_register hconnection hσ hgone

/-- **An unregistration refines its stroke in the ledger**, and tells whether there was one. -/
theorem refines_unregister (h : w.Refines m) (hhome : w.home session = some (shard, identity)) :
    ({ w with exchange := (w.exchange.unregister shard session).2 } : Lobby).Refines
      (m.unregister identity session) ∧
    (w.exchange.unregister shard session).2.ground = w.exchange.ground ∧
    (w.exchange.unregister shard session).1 = decide (m identity = some session) ∧
    Tells w.exchange (w.exchange.unregister shard session).2
      (if m identity = some session then [(.offline, identity)] else []) := by
  obtain ⟨htold, hroster, hground, hnews, hconnection⟩ := h.unregister_spec hhome
  have hreads := reads_unregister h.reads hhome
  rw [← hroster] at hreads
  have hhomes := home_of_ground (w := w) (congrArg Ground.owner hground) w.begun
  refine ⟨⟨?_, ?_, ?_, ?_, ?_⟩, hground, htold, hnews⟩
  · exact h.sound.of_ground hground (fun s i σ hσ => ((hreads.holder s i σ).1 hσ).2) _
  · rw [hhomes]
    exact hreads
  · rw [hhomes]
    exact h.housed
  · exact fun i σ hσ => h.live_unregister hconnection hσ
  · exact fun σ hσ hgone => h.gone_unregister hconnection hσ hgone

theorem owner_of_home (hw : w.Sound) {at' : Nat × String} (h : w.home session = some at') :
    w.owner session = some at'.2 := by
  obtain ⟨-, c, hc, hidentity, -⟩ := hw.connection h
  rw [owner, hc]
  exact congrArg some hidentity

/-- **A visit refines its entry in the ledger**, tells its news, and leaves everybody at home where
they are. -/
theorem refines_act (h : w.Refines m) {visit : Visit} (hallowed : w.Allows visit)
    {f : Session → Option String} (hf : ∀ σ at', w.home σ = some at' → f σ = some at'.2) :
    (w.act visit).Refines (m.act f visit) ∧
      Tells w.exchange (w.act visit).exchange (m.news f visit) ∧
      ∀ σ at', w.home σ = some at' → (w.act visit).home σ = some at' := by
  cases visit with
  | accept identity remoteAddress capacity =>
      obtain ⟨-, -, hservices, -, hkept⟩ :=
        accept_spec h.sound identity remoteAddress capacity
      exact ⟨refines_accept h identity remoteAddress capacity,
        tells_of_eq (congrArg Services.publishing hservices), fun σ at' hσ => (hkept σ at' hσ).1⟩
  | register session =>
      -- the connection is admitted and open, so it has a home to be registered at
      obtain ⟨hadmitted, hopen⟩ := hallowed
      obtain ⟨shard, hshard⟩ := Option.isSome_iff_exists.1 hadmitted
      obtain ⟨c, hc, -⟩ := Option.map_eq_some_iff.1 hopen
      have hhome := home_of_connection hshard hc
      have hact : w.act (.register session) = { w with
          exchange := (w.exchange.register shard session).2, begun := session :: w.begun } := by
        rw [act, hshard]
      obtain ⟨hrefines, hground, hnews⟩ := refines_register h hhome hopen
      rw [hact]
      simp only [Ledger.act, Ledger.news, hf _ _ hhome]
      refine ⟨hrefines, hnews, fun σ at' hσ => ?_⟩
      exact (congrFun (home_of_ground (congrArg Ground.owner hground) _) σ).trans hσ
  | unregister session =>
      -- it was registered before, so it is at home wherever it was admitted
      obtain ⟨⟨shard, identity⟩, hhome⟩ := h.housed session hallowed
      obtain ⟨hrefines, hground, -, hnews⟩ := refines_unregister h hhome
      have hact : w.act (.unregister session)
          = { w with exchange := (w.exchange.unregister shard session).2 } := by
        rw [act, (h.sound.connection hhome).1]
      rw [hact]
      simp only [Ledger.act, Ledger.news, hf _ _ hhome]
      refine ⟨hrefines, hnews, fun σ at' hσ => ?_⟩
      exact (congrFun (home_of_ground (congrArg Ground.owner hground) _) σ).trans hσ

/-- After a history every home is where it was, and some ledger is refined. -/
theorem refines_run_some (h : w.Refines m) {history : List Visit} (hpermits : w.Permits history) :
    (∃ m', (w.run history).Refines m') ∧
      ∀ σ at', w.home σ = some at' → (w.run history).home σ = some at' := by
  induction history generalizing w m with
  | nil => exact ⟨⟨m, h⟩, fun _ _ hσ => hσ⟩
  | cons visit history ih =>
      obtain ⟨hallowed, hrest⟩ := hpermits
      obtain ⟨hrefines, -, hkept⟩ := refines_act h hallowed fun σ at' => owner_of_home h.sound
      obtain ⟨hsome, hhomes⟩ := ih hrefines hrest
      exact ⟨hsome, fun σ at' hσ => hhomes σ at' (hkept σ at' hσ)⟩

/-- **A history refines the ledger that it writes**, and tells its chronicle. -/
theorem refines_run (h : w.Refines m) {history : List Visit} (hpermits : w.Permits history)
    {f : Session → Option String}
    (hf : ∀ σ at', (w.run history).home σ = some at' → f σ = some at'.2) :
    (w.run history).Refines (m.run f history) ∧
      Tells w.exchange (w.run history).exchange (m.chronicle f history) := by
  induction history generalizing w m with
  | nil => exact ⟨h, tells_of_eq rfl⟩
  | cons visit history ih =>
      -- whose a session is does not change, so the end of the history may be asked
      have hnow : ∀ σ at', w.home σ = some at' → f σ = some at'.2 :=
        fun σ at' hσ => hf σ at' ((refines_run_some h hpermits).2 σ at' hσ)
      obtain ⟨hallowed, hrest⟩ := hpermits
      obtain ⟨hrefines, hnews, -⟩ := refines_act h hallowed hnow
      obtain ⟨hrefines', hnews'⟩ := ih hrefines hrest hf
      exact ⟨hrefines', hnews.trans hnews'⟩

/-! ## The list of clients -/

/-- The sessions of the shards are those that hold something. -/
theorem mem_sessions {σ : Session} :
    σ ∈ x.pool.sessions ↔ ∃ s i, x.roster.holder s i = some σ := by
  rw [Pool.sessions, List.mem_flatMap]
  constructor
  · intro hlisted
    obtain ⟨shard, hmem, hσ⟩ := hlisted
    obtain ⟨s, hs⟩ := List.mem_iff_getElem?.1 hmem
    obtain ⟨i, hi⟩ := Table.mem_values_iff.1 hσ
    exact ⟨s, i, (Exchange.holder_of_shard? hs i).trans hi⟩
  · intro hheld
    obtain ⟨s, i, hi⟩ := hheld
    cases hs : x.shard? s with
    | none =>
        rw [Exchange.holder_of_none hs] at hi
        exact absurd hi.symm (Option.some_ne_none _)
    | some shard =>
        rw [Exchange.holder_of_shard? hs] at hi
        exact ⟨shard, List.mem_of_getElem? hs, Table.mem_values_iff.2 ⟨i, hi⟩⟩

/-- What holds of any two that hold different things holds of all sessions in turn. -/
theorem pairwise_sessions {R : Session → Session → Prop}
    (h : ∀ s i t j σ τ, x.roster.holder s i = some σ → x.roster.holder t j = some τ →
      (s, i) ≠ (t, j) → R σ τ) : x.pool.sessions.Pairwise R := by
  rw [Pool.sessions, List.pairwise_flatMap]
  constructor
  · intro shard hmem
    obtain ⟨s, hs⟩ := List.mem_iff_getElem?.1 hmem
    refine Table.pairwise_values fun i j σ τ hi hj hne => ?_
    exact h s i s j σ τ ((Exchange.holder_of_shard? hs i).trans hi)
      ((Exchange.holder_of_shard? hs j).trans hj) fun heq => hne (congrArg Prod.snd heq)
  · rw [List.pairwise_iff_getElem]
    intro s t hs ht hlt σ hσ τ hτ
    obtain ⟨i, hi⟩ := Table.mem_values_iff.1 hσ
    obtain ⟨j, hj⟩ := Table.mem_values_iff.1 hτ
    exact h s i t j σ τ
      ((Exchange.holder_of_shard? (List.getElem?_eq_getElem hs) i).trans hi)
      ((Exchange.holder_of_shard? (List.getElem?_eq_getElem ht) j).trans hj)
      fun heq => Nat.ne_of_lt hlt (congrArg Prod.fst heq)

/-- Whoever holds an identity is the session that the ledger has for it, and its connection has the
identity. -/
theorem Refines.held (h : w.Refines m) {s : Nat} {i : String} {σ : Session}
    (hσ : w.exchange.roster.holder s i = some σ) :
    m i = some σ ∧ w.home σ = some (s, i) ∧
      ∃ c, w.exchange.connection? σ = some c ∧ c.identity = i := by
  obtain ⟨hm, hhome⟩ := (h.reads.holder s i σ).1 hσ
  obtain ⟨-, c, hc, hidentity, -⟩ := h.sound.connection hhome
  exact ⟨hm, hhome, c, hc, hidentity⟩

/-- **The clients are those in the ledger.** -/
theorem mem_clients (h : w.Refines m) {info : ClientInfo} : info ∈ w.exchange.clients ↔
    ∃ i σ c, m i = some σ ∧ w.exchange.connection? σ = some c ∧ c.identity = i ∧
      info = c.info := by
  rw [Exchange.clients, List.mem_mergeSort, List.mem_filterMap]
  constructor
  · intro hlisted
    obtain ⟨σ, hσ, hinfo⟩ := hlisted
    -- whoever is listed is held somewhere, and whoever is held stands in the ledger
    obtain ⟨s, i, hi⟩ := mem_sessions.1 hσ
    obtain ⟨hm, -, c, hc, hidentity⟩ := h.held hi
    rw [hc] at hinfo
    exact ⟨i, σ, c, hm, hc, hidentity, (Option.some.inj hinfo).symm⟩
  · intro hstands
    obtain ⟨i, σ, c, hm, hc, -, rfl⟩ := hstands
    obtain ⟨s, hs⟩ := h.reads.known i σ hm
    refine ⟨σ, mem_sessions.2 ⟨s, i, (h.reads.holder s i σ).2 ⟨hm, hs⟩⟩, ?_⟩
    rw [hc]
    rfl

/-- **The clients are sorted by identity**, and no identity is listed twice. -/
theorem sorted_clients (h : w.Refines m) :
    w.exchange.clients.Pairwise fun a b => a.identity < b.identity := by
  have hdistinct : (w.exchange.pool.sessions.filterMap fun session =>
      (w.exchange.connection? session).map Connection.info).Pairwise
        fun a b => a.identity ≠ b.identity := by
    rw [List.pairwise_filterMap]
    refine pairwise_sessions fun s i t j σ τ hσ hτ hne a ha b hb => ?_
    obtain ⟨hm, hhome, c, hc, rfl⟩ := h.held hσ
    obtain ⟨hm', hhome', d, hd, rfl⟩ := h.held hτ
    rw [hc] at ha
    rw [hd] at hb
    obtain rfl := Option.some.inj ha
    obtain rfl := Option.some.inj hb
    -- two of one identity would be the session in the ledger, which is at one home only
    intro hsame
    have hsame : c.identity = d.identity := hsame
    rw [hsame] at hm hhome hne
    rw [Option.some.inj (hm.symm.trans hm')] at hhome
    exact hne (Option.some.inj (hhome.symm.trans hhome'))
  -- sorting puts no later identity first; that they differ makes the order strict
  have hsorted : w.exchange.clients.Pairwise
      fun a b => (!decide (b.identity < a.identity)) = true := by
    refine List.pairwise_mergeSort ?_ ?_ _
    · intro a b c hab hbc
      simp only [Bool.not_eq_true', decide_eq_false_iff_not, String.not_lt] at hab hbc ⊢
      exact String.le_trans hab hbc
    · intro a b
      simp only [Bool.or_eq_true, Bool.not_eq_true', decide_eq_false_iff_not, String.not_lt]
      exact String.le_total a.identity b.identity
  have hdistinct' : w.exchange.clients.Pairwise fun a b => a.identity ≠ b.identity :=
    hdistinct.perm (List.mergeSort_perm _ _).symm fun hne => hne.symm
  refine hsorted.imp₂ (fun a b hle hne => ?_) hdistinct'
  simp only [Bool.not_eq_true', decide_eq_false_iff_not, String.not_lt] at hle
  exact String.not_le.1 fun hge => hne (String.le_antisymm hle hge)

/-! ## What can be seen -/

/-- All that can be asked about connections shows a ledger. -/
structure Shows (w : Lobby) (m : Ledger) : Prop where
  locate : ∀ i, w.exchange.locate i = (m i).bind w.admitted.get?
  isOnline : ∀ i, w.exchange.services.presence.isOnline i = (m i).isSome
  holder : ∀ s i σ, w.exchange.holder? s i = some σ ↔ m i = some σ ∧ w.admitted.get? σ = some s
  clients : ∀ info, info ∈ w.exchange.clients ↔
    ∃ i σ c, m i = some σ ∧ w.exchange.connection? σ = some c ∧ c.identity = i ∧ info = c.info
  /-- In the order of the identities, each once. -/
  sorted : w.exchange.clients.Pairwise fun a b => a.identity < b.identity
  /-- An unregistration of a connection that was registered before, wherever it was admitted, tells
  whether it is the one to leave the ledger. -/
  unregister : ∀ σ ∈ w.begun, ∃ s, w.admitted.get? σ = some s ∧
    ((w.exchange.unregister s σ).1 = true ↔ ∃ i, m i = some σ)
  /-- Whoever is in the ledger is not closed, and carries the number of a shard. -/
  live : ∀ i σ, m i = some σ → ∃ c s, w.exchange.connection? σ = some c ∧ c.identity = i ∧
    c.isClosed = false ∧ w.admitted.get? σ = some s ∧ c.shard = some s
  /-- Whoever was registered and is not in the ledger any more is closed and cancelled. -/
  gone : ∀ σ ∈ w.begun, (∀ i, m i ≠ some σ) → ∃ c, w.exchange.connection? σ = some c ∧
    c.isClosed = true ∧ c.isCancelled = true

/-- A session in the ledger is at home with the identity it stands for, at the shard it was admitted
to. -/
theorem Refines.home (h : w.Refines m) {i : String} {σ : Session} (hσ : m i = some σ) :
    ∃ s, w.home σ = some (s, i) ∧ w.admitted.get? σ = some s := by
  obtain ⟨s, hs⟩ := h.reads.known i σ hσ
  exact ⟨s, hs, (h.sound.connection hs).1⟩

theorem Refines.locate (h : w.Refines m) (i : String) :
    w.exchange.locate i = (m i).bind w.admitted.get? := by
  have hindex : w.exchange.locate i = w.exchange.roster.index i := rfl
  rw [hindex]
  cases hm : m i with
  | some σ =>
      obtain ⟨s, hs, hadmitted⟩ := h.home hm
      rw [(h.reads.index i s).2 ⟨σ, hm, hs⟩]
      exact hadmitted.symm
  | none =>
      cases hs : w.exchange.roster.index i with
      | none => rfl
      | some s =>
          obtain ⟨σ, hσ, -⟩ := (h.reads.index i s).1 hs
          exact absurd (hσ.symm.trans hm) (Option.some_ne_none _)

/-- A lobby in the state that a ledger says shows it. -/
theorem Refines.shows (h : w.Refines m) : w.Shows m where
  locate := h.locate
  isOnline i := Bool.eq_iff_iff.2 ((h.reads.online i).trans Option.isSome_iff_exists.symm)
  holder s i σ := by
    rw [show w.exchange.holder? s i = w.exchange.roster.holder s i from rfl, h.reads.holder]
    refine and_congr_right fun hm => ?_
    obtain ⟨t, ht, hadmitted⟩ := h.home hm
    rw [ht, hadmitted]
    exact ⟨fun heq => congrArg (Option.map Prod.fst) heq,
      fun heq => congrArg (Option.map (·, i)) heq⟩
  clients _ := mem_clients h
  sorted := sorted_clients h
  unregister σ hσ := by
    obtain ⟨⟨s, identity⟩, hhome⟩ := h.housed σ hσ
    obtain ⟨-, -, htold, -⟩ := refines_unregister h hhome
    refine ⟨s, (h.sound.connection hhome).1, ?_⟩
    rw [htold, decide_eq_true_eq]
    constructor
    · exact fun hm => ⟨identity, hm⟩
    · intro hm
      obtain ⟨i, hi⟩ := hm
      -- a session is at home with one identity only
      obtain ⟨t, ht, -⟩ := h.home hi
      have hsame : identity = i := congrArg Prod.snd (Option.some.inj (hhome.symm.trans ht))
      rwa [hsame]
  live i σ hm := by
    obtain ⟨s, hs, hadmitted⟩ := h.home hm
    obtain ⟨-, c, hc, hidentity, -⟩ := h.sound.connection hs
    obtain ⟨d, hd, hopen, hshard⟩ := h.live i σ hm
    obtain rfl := Option.some.inj (hc.symm.trans hd)
    exact ⟨c, s, hc, hidentity, hopen, hadmitted, hshard.trans hadmitted⟩
  gone := h.gone

/-- **After every history of visits all that can be asked shows the ledger that the history writes**,
and the broker was told its chronicle. -/
theorem shows_ledger (hx : x.Vacant) {history : List Visit} (h : (start x).Permits history) :
    ((start x).run history).Shows
      (Ledger.run ((start x).run history).owner (fun _ => none) history) ∧
    Tells x ((start x).run history).exchange
      (Ledger.chronicle ((start x).run history).owner (fun _ => none) history) := by
  have hsound := (refines_run_some (refines_start hx) h).1.elim fun _ hm => hm.sound
  obtain ⟨hrefines, hnews⟩ := refines_run (refines_start hx) h fun _ _ => owner_of_home hsound
  exact ⟨hrefines.shows, hnews⟩

/-- Ann comes twice, and her first connection leaves twice: she is still there. -/
theorem shows_reconnected :
    let x := Exchange.new { pool.initialShards := 2, pool.maxShards := 2 } .inMemory 0
    let history := [Visit.accept "ann" none 8, .register 0, .accept "ann" none 8, .register 1,
      .unregister 0, .unregister 0]
    ((start x).run history).Shows (fun i => if i = "ann" then some 1 else none) := by
  intro x history
  have hpermits : (start x).Permits history := by decide
  have hshows := (shows_ledger (Exchange.vacant_new _ _ rfl rfl) hpermits).1
  have hfirst : ((start x).run history).owner 0 = some "ann" := by decide
  have hsecond : ((start x).run history).owner 1 = some "ann" := by decide
  -- only these two owners matter for the ledger
  generalize ((start x).run history).owner = owner at hfirst hsecond hshows
  have hledger : Ledger.run owner (fun _ => none) history
      = fun i => if i = "ann" then some 1 else none := by
    funext i
    by_cases hi : i = "ann"
    · simp [history, Ledger.run, Ledger.act, Ledger.register, Ledger.unregister, hfirst, hsecond, hi]
    · simp [history, Ledger.run, Ledger.act, Ledger.register, Ledger.unregister, hfirst, hsecond, hi]
  rwa [hledger] at hshows

end Lobby

end Switchboard
