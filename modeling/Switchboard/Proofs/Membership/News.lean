import Switchboard.Exchange.Start
import Switchboard.Proofs.Membership.Concurrent
import Switchboard.Proofs.Membership.Effects

/-!
# What the broker is told last

A registration tells the broker that somebody is online, and an unregistration that somebody is
offline, in a step of its own after everything else is done. So what is told may not be so any
more when it is told: the connection may have been superseded meanwhile, or somebody else may have
come back.

`Misreported` says that the last news of an identity was untrue already when it was told.
`lastNews_eq_online_iff` says that nothing else can go wrong: once every call has returned, whoever
was last told online is held somewhere and nobody else is, just when the last news was true at the
time. From one telling to the next, being held changes only through calls that have still to tell,
and `Due` names them.
-/

namespace Switchboard

/-- The presence of an identity that a broker was told last. -/
def Broker.lastNews? (b : Broker) (identity : String) : Option PresenceKind :=
  (b.sent.filterMap fun event =>
    match event with
    | .presence e => if e.identity = identity then some e.kind else none
    | _ => none).getLast?

/-- The presence of an identity that the broker of an exchange was told last, if there is one. -/
def Exchange.lastNews? (x : Exchange) (identity : String) : Option PresenceKind :=
  x.broker?.bind (·.lastNews? identity)

/-- Some shard holds a connection for an identity. -/
def Roster.IsHeld (r : Roster) (identity : String) : Prop :=
  ∃ shard session, r.holder shard identity = some session

namespace Turnstile

/-! ## Calls that have still to tell -/

/-- A call that has still to tell something, whatever happens meanwhile. -/
def Stage.Tells : Stage → Prop
  | letGo | untrack => False
  | _ => True

/-- What the next step of a call tells. -/
def Call.news? (c : Call) : Option PresenceKind :=
  match c.leaving, c.stage with
  | none, .announce kind => some kind
  | _, _ => none

/-- Somebody has still to tell of an identity: a call that will in any case, or one that will unless
somebody is back at its shard. -/
def Outstanding (r : Roster) (calls : List Call) (identity : String) : Prop :=
  (∃ c ∈ calls, c.identity = identity ∧ c.stage.Tells) ∨
  ∃ c ∈ calls, c.identity = identity ∧ c.stage.Leaves ∧ r.index identity = some c.shard

/-- Whether an identity is held has changed since the last news of it, whether it was held then
being `was`, only if there is more to tell. -/
structure Due (r : Roster) (calls : List Call) (identity : String) (was : Prop) : Prop where
  came : r.IsHeld identity → was ∨ ∃ c ∈ calls, c.identity = identity ∧ c.stage.Tells
  went : was → r.IsHeld identity ∨ Outstanding r calls identity

section Step

variable {r : Roster} {calls : List Call} {n : Nat} {c : Call} {identity : String} {was : Prop}
  {left : Option Charge}

/-- A call that has still to tell goes on, and has still to tell then, unless this is where it
tells. -/
theorem Call.next_of_tells (htells : c.stage.Tells) (hnot : c.news? = none) (r : Roster) :
    ∃ stage, c.next r = some stage ∧ stage.Tells := by
  obtain ⟨connection, shard, leaving, stage⟩ := c
  cases leaving with
  | some l => exact ⟨_, rfl, htells⟩
  | none =>
      cases stage with
      | assign => exact ⟨_, rfl, trivial⟩
      | hold => exact ⟨_, rfl, trivial⟩
      | track =>
          obtain ⟨stage, hnext, hsettles⟩ := settles_of_track connection shard r
          refine ⟨stage, hnext, ?_⟩
          cases stage with
          | evict previous => trivial
          | setOnline => trivial
          | _ => exact hsettles.elim
      | evict previous => exact ⟨_, rfl, trivial⟩
      | setOnline => exact ⟨_, rfl, trivial⟩
      | announce kind => exact absurd hnot.symm (Option.some_ne_none kind).symm
      | letGo => exact htells.elim
      | untrack => exact htells.elim

theorem tells_advance (hc : calls[n]? = some c)
    (hnot : c.identity = identity → c.news? = none)
    (h : ∃ d ∈ calls, d.identity = identity ∧ d.stage.Tells) :
    ∃ d ∈ advance calls n ((c.next r).map (c.moved left)), d.identity = identity ∧
      d.stage.Tells := by
  obtain ⟨d, hd, hidentity, htells⟩ := h
  by_cases hdc : d = c
  · subst hdc
    obtain ⟨stage, hnext, htells'⟩ := Call.next_of_tells htells (hnot hidentity) r
    rw [hnext]
    exact ⟨_, mem_advance_self hc _, hidentity, htells'⟩
  · exact ⟨d, mem_advance_of_ne hc hd hdc, hidentity, htells⟩

/-- What is outstanding stays so, unless it is the call that proceeds. -/
theorem Outstanding.keep {r' : Roster} (h : Outstanding r calls identity)
    (hc : calls[n]? = some c) (hnot : c.identity = identity → c.news? = none)
    (hindex : r'.index identity = r.index identity)
    (hleaves : c.identity = identity → c.stage.Leaves → r.index identity = some c.shard →
      r'.IsHeld identity ∨
        Outstanding r' (advance calls n ((c.next r).map (c.moved left))) identity) :
    r'.IsHeld identity ∨
      Outstanding r' (advance calls n ((c.next r).map (c.moved left))) identity := by
  rcases h with h | ⟨d, hd, hidentity, hstage, hpoints⟩
  · exact Or.inr (Or.inl (tells_advance hc hnot h))
  · by_cases hdc : d = c
    · subst hdc
      exact hleaves hidentity hstage hpoints
    · exact Or.inr (Or.inr
        ⟨d, mem_advance_of_ne hc hd hdc, hidentity, hstage, hindex.trans hpoints⟩)

/-- Who explains that a presence bit may be set holds the identity or has still to tell of it. -/
theorem Explained.isHeld_or (h : Explained r calls identity) :
    r.IsHeld identity ∨ Outstanding r calls identity := by
  rcases h with h | ⟨d, hd, hidentity, hstage⟩ | h
  · exact Or.inl h
  · refine Or.inr (Or.inl ⟨d, hd, hidentity, ?_⟩)
    obtain ⟨connection, shard, leaving, stage⟩ := d
    cases stage with
    | letGo => exact hstage.elim id id
    | untrack => exact hstage.elim id id
    | _ => trivial
  · exact Or.inr (Or.inr h)

/-- Nobody is held for a call's step but by a registration that takes hold. -/
theorem Call.isHeld_of_after (h : (c.after r).IsHeld identity) :
    r.IsHeld identity ∨ (c.stage = .hold ∧ c.identity = identity) := by
  obtain ⟨shard, session, hσ⟩ := h
  rcases Call.holder_of_after hσ with hσ | ⟨hhold, -, hidentity, -⟩
  · exact Or.inl ⟨shard, session, hσ⟩
  · exact Or.inr ⟨hhold, hidentity.symm⟩

/-- **A step after which an identity is not held any more leaves something to tell.** -/
theorem went_step {home : Session → Option (Nat × String)} (hc : calls[n]? = some c)
    (hcalls : ∀ d ∈ calls, d.stage ≠ .letGo → home d.session = some (d.shard, d.identity))
    (hheld : ∀ s i σ, r.holder s i = some σ → home σ = some (s, i))
    (hpointed : ∀ s i σ, r.holder s i = some σ → Pointed r calls s i σ)
    (hnot : c.identity = identity → c.news? = none)
    (h : r.IsHeld identity ∨ Outstanding r calls identity) :
    (c.after r).IsHeld identity ∨
      Outstanding (c.after r) (advance calls n ((c.next r).map (c.moved left))) identity := by
  by_cases hidentity : identity = c.identity
  · by_cases htells : c.stage.Tells
    · -- whatever a registration does, it has still to tell of it
      exact Or.inr (Or.inl
        (tells_advance hc hnot ⟨c, List.mem_of_getElem? hc, hidentity.symm, htells⟩))
    · subst hidentity
      obtain ⟨connection, at', leaving, stage⟩ := c
      cases leaving with
      | some l =>
          refine h.elim Or.inl fun ho => ho.keep hc hnot rfl ?_
          exact fun _ hl hp => Or.inr (Or.inr ⟨_, mem_advance_self hc _, rfl, hl, hp⟩)
      | none =>
          cases stage with
          | letGo =>
              by_cases hmine : r.holder at' connection.identity = some connection.session
              · have hnext : Call.next ⟨connection, at', none, .letGo⟩ r = some .untrack :=
                  if_pos hmine
                rw [hnext]
                exact (explained_of_letGo hc hcalls (hheld _ _ _ hmine)
                  (hpointed _ _ _ hmine)).isHeld_or
              · have hsame : Call.after ⟨connection, at', none, .letGo⟩ r = r :=
                  Roster.letGo_of_not_held hmine
                rw [hsame]
                exact h.elim Or.inl fun ho => ho.keep hc hnot rfl fun _ hl _ => hl.elim
          | untrack =>
              by_cases hgone : r.Deserted connection.identity at'
              · have hnext : Call.next ⟨connection, at', none, .untrack⟩ r
                    = some (.announce .offline) := if_pos hgone
                rw [hnext]
                exact Or.inr (Or.inl ⟨_, mem_advance_self hc _, rfl, trivial⟩)
              · have hsame : Call.after ⟨connection, at', none, .untrack⟩ r = r := if_neg hgone
                rw [hsame]
                refine h.elim Or.inl fun ho => ho.keep hc hnot rfl ?_
                -- the index still points to the shard, so somebody is back there
                intro _ _ hp
                obtain ⟨σ, hσ⟩ := Option.ne_none_iff_exists'.1 fun hn => hgone ⟨hp, hn⟩
                exact Or.inl ⟨at', σ, hσ⟩
          | _ => exact absurd trivial htells
  · obtain ⟨hholder, hindex, -⟩ := c.after_of_ne hidentity r
    rcases h with ⟨shard, session, hσ⟩ | ho
    · exact Or.inl ⟨shard, session, (hholder shard).trans hσ⟩
    · exact ho.keep hc hnot hindex fun hi => absurd hi.symm hidentity

/-- **A step that does not tell of an identity leaves what is due of it.** -/
theorem due_step {home : Session → Option (Nat × String)} (hc : calls[n]? = some c)
    (hcalls : ∀ d ∈ calls, d.stage ≠ .letGo → home d.session = some (d.shard, d.identity))
    (hheld : ∀ s i σ, r.holder s i = some σ → home σ = some (s, i))
    (hpointed : ∀ s i σ, r.holder s i = some σ → Pointed r calls s i σ)
    (hnot : c.identity = identity → c.news? = none) (h : Due r calls identity was) :
    Due (c.after r) (advance calls n ((c.next r).map (c.moved left))) identity was where
  came hafter := by
    rcases Call.isHeld_of_after hafter with hbefore | ⟨hhold, hidentity⟩
    · exact (h.came hbefore).imp id (tells_advance hc hnot)
    · refine Or.inr (tells_advance hc hnot ⟨c, List.mem_of_getElem? hc, hidentity, ?_⟩)
      rw [hhold]
      trivial
  went hwas := went_step hc hcalls hheld hpointed hnot (h.went hwas)

/-- Nothing is due of news that is true. -/
theorem Due.of_iff (h : was ↔ r.IsHeld identity) : Due r calls identity was where
  came hheld := Or.inl (h.2 hheld)
  went hwas := Or.inl (h.1 hwas)

/-- More calls take nothing away that is due. -/
theorem Due.mono {r' : Roster} {calls' : List Call} (h : Due r calls identity was) (hr : r' = r)
    (hcalls : ∀ c ∈ calls, c ∈ calls') : Due r' calls' identity was := by
  subst hr
  constructor
  · intro hheld
    refine (h.came hheld).imp id ?_
    exact fun ⟨c, hc, htells⟩ => ⟨c, hcalls c hc, htells⟩
  · intro hwas
    rcases h.went hwas with hheld | ⟨c, hc, htells⟩ | ⟨c, hc, hleaves⟩
    · exact Or.inl hheld
    · exact Or.inr (Or.inl ⟨c, hcalls c hc, htells⟩)
    · exact Or.inr (Or.inr ⟨c, hcalls c hc, hleaves⟩)

end Step

/-! ## What a move tells -/

/-- News of an identity is the last news of it from then on, and other news is not. -/
theorem lastNews?_of_tells {x y : Exchange} {b : Broker} {told : Option (PresenceKind × String)}
    (h : Tells x y told.toList) (hb : x.broker? = some b) (hheard : b.subscribers.size ≠ 0)
    (identity : String) :
    ∃ b', y.broker? = some b' ∧ b'.subscribers = b.subscribers ∧
      (∀ kind, told = some (kind, identity) → b'.lastNews? identity = some kind) ∧
      ((∀ kind, told ≠ some (kind, identity)) → b'.lastNews? identity = b.lastNews? identity) := by
  have hpublishing : x.services.publishing = .broker b := by
    unfold Exchange.broker? at hb
    split at hb
    · next heq => exact heq.trans (congrArg _ (Option.some.inj hb))
    · cases hb
  obtain ⟨events, hevents, hy⟩ := h b hpublishing
  rw [if_neg hheard] at hy
  refine ⟨{ b with sent := b.sent ++ events.map .presence }, by rw [Exchange.broker?.eq_def, hy],
    rfl, ?_⟩
  simp only [Broker.lastNews?, List.filterMap_append]
  cases told with
  | none =>
      obtain rfl := List.map_eq_nil_iff.1 hevents
      exact ⟨fun _ h => absurd h.symm (Option.some_ne_none _),
        fun _ => congrArg List.getLast? (List.append_nil _)⟩
  | some news =>
      obtain ⟨event, rfl, rfl⟩ := List.map_eq_singleton_iff.1 hevents
      by_cases hof : event.identity = identity
      · constructor
        · intro kind hkind
          obtain rfl : event.kind = kind := congrArg Prod.fst (Option.some.inj hkind)
          simp [hof]
        · exact fun hnot => absurd (congrArg (fun i => some (event.kind, i)) hof) (hnot _)
      · refine ⟨fun _ hkind => absurd (congrArg Prod.snd (Option.some.inj hkind)) hof, ?_⟩
        intro _
        simp [hof]

/-- What a move tells: who is where, or gone. -/
def announced (w : Turnstile) : Move → Option (PresenceKind × String)
  | .proceed n => w.calls[n]?.bind fun c => c.news?.map fun kind => (kind, c.identity)
  | _ => none

/-- The last news of an identity in the history of a turnstile was that it is online when nobody held it,
or that it is offline when somebody did. -/
inductive Misreported (w : Turnstile) (identity : String) : List Move → Prop
  | tell {history : List Move} {move : Move} {kind : PresenceKind}
      (htold : (w.run history).announced move = some (kind, identity))
      (huntrue : ¬ (kind = .online ↔ (w.run history).exchange.roster.IsHeld identity)) :
      Misreported w identity (history ++ [move])
  | keep {history : List Move} {move : Move} (h : Misreported w identity history)
      (hquiet : ∀ kind, (w.run history).announced move ≠ some (kind, identity)) :
      Misreported w identity (history ++ [move])

variable {w : Turnstile} {x : Exchange} {b : Broker} {identity : String} {history : List Move}
  {move : Move}

theorem misreported_append :
    Misreported w identity (history ++ [move]) ↔
      (∃ kind, (w.run history).announced move = some (kind, identity) ∧
        ¬ (kind = .online ↔ (w.run history).exchange.roster.IsHeld identity)) ∨
      (Misreported w identity history ∧
        ∀ kind, (w.run history).announced move ≠ some (kind, identity)) := by
  constructor
  · intro h
    generalize hl : history ++ [move] = l at h
    cases h with
    | tell htold huntrue =>
        obtain ⟨rfl, hmove⟩ := List.append_inj' hl rfl
        obtain rfl := List.singleton_inj.1 hmove
        exact Or.inl ⟨_, htold, huntrue⟩
    | keep h hquiet =>
        obtain ⟨rfl, hmove⟩ := List.append_inj' hl rfl
        obtain rfl := List.singleton_inj.1 hmove
        exact Or.inr ⟨h, hquiet⟩
  · intro h
    rcases h with ⟨kind, htold, huntrue⟩ | ⟨h, hquiet⟩
    · exact .tell htold huntrue
    · exact .keep h hquiet

/-- News is wrong or right when it is told, whatever was told before. -/
theorem misreported_iff_of_announced {kind : PresenceKind}
    (h : (w.run history).announced move = some (kind, identity)) :
    Misreported w identity (history ++ [move]) ↔
      ¬ (kind = .online ↔ (w.run history).exchange.roster.IsHeld identity) := by
  rw [misreported_append]
  constructor
  · intro hmis
    rcases hmis with ⟨kind', hkind', huntrue⟩ | ⟨-, hno⟩
    · obtain rfl : kind' = kind := congrArg Prod.fst (Option.some.inj (hkind'.symm.trans h))
      exact huntrue
    · exact absurd h (hno kind)
  · exact fun huntrue => Or.inl ⟨kind, h, huntrue⟩

theorem misreported_iff_of_quiet
    (h : ∀ kind, (w.run history).announced move ≠ some (kind, identity)) :
    Misreported w identity (history ++ [move]) ↔ Misreported w identity history := by
  rw [misreported_append]
  exact ⟨fun hmis => hmis.elim (fun ⟨kind, hkind, _⟩ => absurd hkind (h kind)) And.left,
    fun hmis => Or.inr ⟨hmis, h⟩⟩

/-- A history of no moves tells nothing. -/
theorem not_misreported_nil : ¬ Misreported w identity [] := by
  intro h
  generalize hl : ([] : List Move) = l at h
  cases h with
  | tell => exact List.append_ne_nil_of_right_ne_nil _ (List.cons_ne_nil _ _) hl.symm
  | keep => exact List.append_ne_nil_of_right_ne_nil _ (List.cons_ne_nil _ _) hl.symm

/-! ## What a history tells -/

/-- No other step has a word with the broker. -/
theorem publishing_perform (hwell : x.services.outages = []) {c : Call} (hnot : c.news? = none) :
    (c.perform x).2.services.publishing = x.services.publishing := by
  obtain ⟨connection, shard, leaving, stage⟩ := c
  cases leaving with
  | some l =>
      by_cases hclosed : l.isClosed = true
      · rw [Call.perform_release hclosed]
        rfl
      · have hshut := congrArg Services.publishing (x.services_shut l.session)
        simp only [Call.perform, hclosed, Bool.false_eq_true, if_false]
        split
        · next heq => rwa [heq] at hshut
        · next heq => rwa [heq] at hshut
  | none =>
      cases stage with
      | assign => exact congrArg Services.publishing (x.services_assignShard ..)
      | hold => exact congrArg Services.publishing (x.services_enrol ..)
      | track =>
          by_cases hreachable : x.pool.isReachable = true
          · rw [Call.perform_track hreachable]
            rfl
          · simp only [Call.perform, if_neg hreachable]
      | evict previous => exact congrArg Services.publishing (x.services_oust ..)
      | setOnline =>
          rw [Call.perform_setOnline]
          exact Exchange.publishing_setOnline hwell connection.identity
      | letGo =>
          rw [Call.perform_letGo]
          exact congrArg Services.publishing (x.services_letGo shard connection)
      | untrack =>
          rw [Call.perform_untrack, Exchange.depart]
          split
          · exact Exchange.publishing_untrack hwell ..
          · rw [Exchange.setOffline, Exchange.changePresence_of_well hwell]
      | announce kind => exact absurd hnot (Option.some_ne_none kind)

theorem announced_of_news {n : Nat} {c : Call} (hc : w.calls[n]? = some c) {kind : PresenceKind}
    (hkind : c.news? = some kind) : w.announced (.proceed n) = some (kind, c.identity) := by
  rw [announced, hc, Option.bind_some, hkind]
  rfl

theorem news_of_announced {kind : PresenceKind} (h : w.announced move = some (kind, identity)) :
    ∃ n c, move = .proceed n ∧ w.calls[n]? = some c ∧ c.identity = identity ∧
      c.news? = some kind := by
  cases move with
  | proceed n =>
      obtain ⟨c, hc, hnews⟩ := Option.bind_eq_some_iff.1 h
      obtain ⟨kind', hkind, heq⟩ := Option.map_eq_some_iff.1 hnews
      obtain ⟨rfl, rfl⟩ := Prod.mk.inj heq
      exact ⟨n, c, rfl, hc, rfl, hkind⟩
  | _ => cases h

/-- A call that tells something is at that stage, and has nobody on its hands. -/
theorem Call.eq_of_news {c : Call} {kind : PresenceKind} (h : c.news? = some kind) :
    c = ⟨c.connection, c.shard, none, .announce kind⟩ := by
  obtain ⟨connection, shard, leaving, stage⟩ := c
  cases leaving with
  | some l => cases h
  | none =>
      cases stage with
      | announce kind' => rw [Option.some.inj h]
      | _ => cases h

/-- **A move tells what it announces**, and nothing else. -/
theorem tells_act (hw : w.Coherent) (move : Move) :
    Tells w.exchange (w.act move).exchange (w.announced move).toList := by
  have hbegin : ∀ session shard stage,
      (w.begin session shard stage).exchange.services.publishing
        = w.exchange.services.publishing :=
    fun session shard stage => congrArg (·.services.publishing) (exchange_begin w ..)
  cases move with
  | accept identity remoteAddress capacity =>
      obtain ⟨-, -, hservices, -⟩ := Lobby.accept_spec hw.lobby identity remoteAddress capacity
      exact tells_of_eq (congrArg Services.publishing hservices)
  | register session =>
      refine tells_of_eq ?_
      rw [act]
      split
      · exact hbegin ..
      · rfl
  | fail session =>
      refine tells_of_eq ?_
      rw [act]
      split
      · rfl
      · rfl
  | unregister session shard =>
      refine tells_of_eq ?_
      rw [act]
      split
      · exact hbegin ..
      · rfl
  | proceed n =>
      cases hc : w.calls[n]? with
      | none =>
          rw [act, proceed, announced, hc]
          exact tells_of_eq rfl
      | some c =>
          rw [act, proceed_eq hc]
          cases hnews : c.news? with
          | none =>
              have hquiet : w.announced (.proceed n) = none := by
                rw [announced, hc, Option.bind_some, hnews]
                rfl
              rw [hquiet]
              exact tells_of_eq (publishing_perform hw.lobby.well hnews)
          | some kind =>
              rw [announced_of_news hc hnews, Call.eq_of_news hnews]
              have htold := tells_announce w.exchange
                (w.exchange.presenceEvent kind c.shard c.connection)
              rwa [kind_presenceEvent] at htold
  | abandon => exact tells_of_eq rfl

/-- **After every history, whether an identity was held at its last news is still so, or more news is
due.** It was held then just when it was told online and rightly so, or offline and wrongly so. -/
theorem due_run (hx : x.Vacant) (hb : x.broker? = some b) (hheard : b.subscribers.size ≠ 0)
    (hnone : b.lastNews? identity = none) (hpool : .abandon ∉ history) :
    ∃ b', ((start x).run history).exchange.broker? = some b' ∧
      b'.subscribers = b.subscribers ∧
      Due ((start x).run history).exchange.roster ((start x).run history).calls identity
        (b'.lastNews? identity = some .online ↔ ¬ Misreported (start x) identity history) := by
  induction history using List.reverseRecOn with
  | nil =>
      refine ⟨b, hb, rfl, ?_, ?_⟩
      · intro hheld
        obtain ⟨shard, session, hσ⟩ := hheld
        exact absurd ((hx.holder shard identity).symm.trans hσ).symm (Option.some_ne_none _)
      · -- nobody was told of yet
        intro hwas
        exact absurd (hnone.symm.trans (hwas.2 not_misreported_nil)).symm (Option.some_ne_none _)
  | append_singleton history move ih =>
      rw [List.mem_append, not_or] at hpool
      obtain ⟨b₁, hb₁, hsubscribers, hdue⟩ := ih hpool.1
      have hw := coherent_run hx hpool.1
      rw [run_append]
      have htelling := fun kind => @misreported_iff_of_announced (start x) identity history move kind
      have hsilent := @misreported_iff_of_quiet (start x) identity history move
      generalize (start x).run history = w at *
      obtain ⟨b₂, hb₂, hsubscribers₂, htold, hquiet⟩ := lastNews?_of_tells (tells_act hw move) hb₁
        (by rwa [hsubscribers]) identity
      refine ⟨b₂, hb₂, hsubscribers₂.trans hsubscribers, ?_⟩
      by_cases hnews : ∃ kind, w.announced move = some (kind, identity)
      · -- the news says how it is, or not, and is the last one now
        obtain ⟨kind, hkind⟩ := hnews
        obtain ⟨n, c, rfl, hc, -, hstage⟩ := news_of_announced hkind
        obtain ⟨-, hroster, -⟩ := hw.performs (List.mem_of_getElem? hc)
        have hsame : (w.act (.proceed n)).exchange.roster = w.exchange.roster := by
          rw [act, proceed_eq hc]
          exact hroster.trans (by rw [Call.eq_of_news hstage]; rfl)
        refine Due.of_iff ?_
        rw [hsame, htold kind hkind, htelling kind hkind, Classical.not_not]
        cases kind with
        | online => simp
        | offline => simp
      · have hno : ∀ kind, w.announced move ≠ some (kind, identity) :=
          fun kind hkind => hnews ⟨kind, hkind⟩
        rw [hquiet hno, hsilent hno]
        by_cases hstep : ∃ n c, move = .proceed n ∧ w.calls[n]? = some c
        · obtain ⟨n, c, rfl, hc⟩ := hstep
          obtain ⟨⟨left, hnext⟩, hroster, -⟩ := hw.performs (List.mem_of_getElem? hc)
          rw [act, proceed_eq hc]
          dsimp only
          rw [hroster, hnext]
          refine due_step hc hw.called hw.lobby.held hw.pointed ?_ hdue
          intro hidentity
          refine Option.eq_none_iff_forall_ne_some.2 fun kind hkind => ?_
          exact hno kind ((announced_of_news hc hkind).trans (by rw [hidentity]))
        · obtain ⟨hroster, hcalls⟩ :=
            act_of_not_proceed hw fun n c hn hc => hstep ⟨n, c, hn, hc⟩
          exact hdue.mono hroster hcalls

/-- **Once every call has returned, the last news of an identity is that it is online just when some
shard holds it, unless the last news was untrue when it was told.** The connections are any number,
under any identities, each registered once at the shard it was admitted to and unregistered
afterwards, as often as anybody likes. The steps of all calls come in any order, somebody listens to
the broker, and the pool is there all the time. -/
theorem lastNews_eq_online_iff (hx : x.Vacant) (hb : x.broker? = some b)
    (hheard : b.subscribers.size ≠ 0) (hnone : b.lastNews? identity = none) (history : List Move)
    (hpool : .abandon ∉ history) (hdone : ((start x).run history).calls = []) :
    (((start x).run history).exchange.lastNews? identity = some .online ↔
        ((start x).run history).exchange.roster.IsHeld identity) ↔
      ¬ Misreported (start x) identity history := by
  obtain ⟨b', hb', -, hdue⟩ := due_run hx hb hheard hnone hpool
  rw [Exchange.lastNews?, hb', Option.bind_some]
  have hwas : (b'.lastNews? identity = some .online ↔ ¬ Misreported (start x) identity history) ↔
      ((start x).run history).exchange.roster.IsHeld identity := by
    constructor
    · intro hwas
      have hnow := hdue.went hwas
      rw [hdone] at hnow
      rcases hnow with hheld | ⟨c, hc, -⟩ | ⟨c, hc, -⟩
      · exact hheld
      · exact absurd hc List.not_mem_nil
      · exact absurd hc List.not_mem_nil
    · intro hheld
      have hnow := hdue.came hheld
      rw [hdone] at hnow
      rcases hnow with hwas | ⟨c, hc, -⟩
      · exact hwas
      · exact absurd hc List.not_mem_nil
  rw [← hwas]
  tauto

/-- An exchange with two shards and a broker that somebody listens to. -/
def heard : Exchange :=
  .new { pool.initialShards := 2, pool.maxShards := 2 }
    { Services.inMemory with publishing := .broker (Broker.new 4).subscribe.2 } 0

/-- The first of two connections leaves while the second one comes, and is the first to tell. -/
theorem not_misreported_of_told_in_turn :
    ¬ Misreported (start heard) "ann"
      [.accept "ann" none 8, .accept "ann" none 8, .register 0, .proceed 0, .proceed 0, .proceed 0,
        .proceed 0, .proceed 0, .unregister 0 0, .proceed 0, .proceed 0, .proceed 0, .proceed 0,
        .register 1, .proceed 1, .proceed 1, .proceed 1, .proceed 1, .proceed 0, .proceed 0] :=
  (lastNews_eq_online_iff (Exchange.vacant_new _ _ rfl rfl) rfl (by decide) rfl _ (by decide)
    (List.eq_nil_of_length_eq_zero (by decide))).1
    ⟨fun _ => ⟨1, 1, by decide⟩, fun _ => by decide⟩

/-- The second of two connections comes while the first one is about to tell that it has left. Then
every call has returned, the second connection is held, and the last news is that nobody is. -/
theorem not_online_of_told_late :
    let w := (start heard).run
      [.accept "ann" none 8, .accept "ann" none 8, .register 0, .proceed 0, .proceed 0, .proceed 0,
        .proceed 0, .proceed 0, .unregister 0 0, .proceed 0, .proceed 0, .proceed 0, .proceed 0,
        .register 1, .proceed 1, .proceed 1, .proceed 1, .proceed 1, .proceed 1, .proceed 0]
    w.calls = [] ∧ ¬ (w.exchange.lastNews? "ann" = some .online ↔ w.exchange.roster.IsHeld "ann") := by
  intro w
  refine ⟨List.eq_nil_of_length_eq_zero (by decide), fun hiff => ?_⟩
  have hlast : w.exchange.lastNews? "ann" = some .offline := by decide
  have hheld : w.exchange.roster.holder 1 "ann" = some 1 := by decide
  have honline : w.exchange.lastNews? "ann" = some .online := hiff.2 ⟨1, 1, hheld⟩
  cases hlast.symm.trans honline

end Turnstile

end Switchboard
