import Switchboard.Proofs.Membership.Lobby
import Switchboard.Proofs.Table

/-!
# Coming and going, one atomic step at a time

Many calls are under way at once, and one after another does its next step, in whatever order. A
section that takes a lock is one step, or several where it does more than one thing that others can
see: a call that retires a connection takes it out of the registry, closes it, and takes it off the
load, and in between anybody else may do something. A `Turnstile` is an exchange with the calls that
have begun and not returned. A `Move` begins a call or lets one proceed, and any list of moves is a
history. A client whose upgrade fails after it was admitted is taken off the load without a call.

`Exchange.hold_eq_enrol`, `Exchange.retire_eq_shut` and `Exchange.evict_eq_oust` say which steps the
longer sections are, so whatever whole sections can do in some order is the work of some history. A
call that nobody gets in the way of is the call that `Exchange.register` or `Exchange.unregister`
makes (`completes_register`, `completes_unregister`).
-/

namespace Switchboard

/-! ## Calls -/

namespace Turnstile

/-- A connection that counts for the load of a shard. -/
structure Charge where
  shard : Nat
  session : Session
  /-- Whether it was closed, so that it is only to be taken off the load. -/
  isClosed : Bool
  deriving DecidableEq

/-- The charge of a connection that is open. -/
abbrev Charge.new (shard : Nat) (session : Session) : Charge := ⟨shard, session, false⟩

/-- What a call does next. -/
inductive Stage
  | assign
  | hold
  | track
  | evict (previous : Nat)
  | setOnline
  | letGo
  | untrack
  | announce (kind : PresenceKind)
  deriving DecidableEq

/-- Whether the connection of a call has still to come into the registry. -/
def Stage.isEntering : Stage → Bool
  | assign | hold => true
  | _ => false

/-- A registration or unregistration of a connection at a shard that has begun. -/
structure Call where
  connection : Connection
  shard : Nat
  /-- The connection that the call took out of a registry and has not done with. -/
  leaving : Option Charge
  /-- What the call does when it has done with that. -/
  stage : Stage

namespace Call

abbrev identity (c : Call) : String := c.connection.identity

abbrev session (c : Call) : Session := c.connection.session

/-- Performs the next step of a call, and tells how the call stands then, if it goes on. -/
def perform (c : Call) (x : Exchange) : Option Call × Exchange :=
  match c.leaving with
  | some l =>
    if l.isClosed then (some { c with leaving := none }, x.releaseLoad l.shard)
    else
      match x.shut l.session with
      | (true, x) => (some { c with leaving := some { l with isClosed := true } }, x)
      | (false, x) => (some { c with leaving := none }, x)
  | none =>
    match c.stage with
    | .assign => (some { c with stage := .hold }, x.assignShard c.shard c.session)
    | .hold =>
      let (displaced, x) := x.enrol c.shard c.session
      let stale := displaced.filter fun stale => decide (stale ≠ c.session)
      (some { c with leaving := stale.map (.new c.shard), stage := .track }, x)
    | .track =>
      if x.pool.isReachable then
        match x.track c.identity c.shard with
        | (some previous, x) =>
          if previous = c.shard then (some { c with stage := .setOnline }, x)
          else (some { c with stage := .evict previous }, x)
        | (none, x) => (some { c with stage := .setOnline }, x)
      else (some { c with stage := .setOnline }, x)
    | .evict previous =>
      let (stale, x) := x.oust previous c.identity c.session
      (some { c with leaving := stale.map (.new previous), stage := .setOnline }, x)
    | .setOnline =>
      match x.setOnline c.identity with
      | (true, x) => (some { c with stage := .announce .online }, x)
      | (false, x) => (none, x)
    | .letGo =>
      match x.letGo c.shard c.connection with
      | (true, x) => (some { c with leaving := some (.new c.shard c.session), stage := .untrack }, x)
      | (false, x) => (none, x)
    | .untrack =>
      match x.depart c.shard c.identity with
      | (true, x) => (some { c with stage := .announce .offline }, x)
      | (false, x) => (none, x)
    | .announce kind => (none, x.announce (x.presenceEvent kind c.shard c.connection))

end Call

inductive Move
  | accept (identity : String) (remoteAddress : Option SocketAddress) (capacity : Nat)
  /-- A registration of a connection is begun, at the shard that it was admitted to. -/
  | register (session : Session)
  /-- The upgrade of a client that was admitted has failed. -/
  | fail (session : Session)
  /-- Somebody begins to unregister a connection, from whatever shard. -/
  | unregister (session : Session) (shard : Nat)
  /-- The call of a number performs its next step. -/
  | proceed (call : Nat)
  /-- The pool is given up, and its shards live on. -/
  | abandon
  deriving DecidableEq

end Turnstile

/-- A lobby with the calls that are under way. -/
structure Turnstile extends Lobby where
  /-- The connections that were taken off the load because their upgrade failed. -/
  failed : List Session
  /-- The connections that a call returned for. -/
  returned : List Session
  /-- The calls that have begun and not returned. -/
  calls : List Turnstile.Call

namespace Turnstile

/-- An exchange where nothing has happened yet. -/
def start (x : Exchange) : Turnstile := { Lobby.start x with failed := [], returned := [], calls := [] }

/-- The connections that were admitted and neither registered nor given up, each with its shard. -/
def awaited (w : Turnstile) : Table Session Nat :=
  w.admitted.filter fun session _ => decide (session ∉ w.begun ∧ session ∉ w.failed)

/-- Begins a call at a shard. -/
def begin (w : Turnstile) (session : Session) (shard : Nat) (stage : Stage) : Turnstile :=
  match w.exchange.connection? session with
  | some connection =>
    { w with calls := w.calls ++ [{ connection, shard, leaving := none, stage }] }
  | none => w

/-- The calls after the one of a number has performed a step. -/
def advance (calls : List Call) (n : Nat) : Option Call → List Call
  | some c => calls.set n c
  | none => calls.eraseIdx n

def proceed (w : Turnstile) (n : Nat) : Turnstile :=
  match w.calls[n]? with
  | none => w
  | some c =>
    let (next, exchange) := c.perform w.exchange
    { w with
      exchange
      returned := if next.isNone then c.session :: w.returned else w.returned
      calls := advance w.calls n next }

/-- What a move does. Each connection that was admitted is registered once or given up once, and
unregistered when its registration has returned; a move that is against this does nothing. -/
def act (w : Turnstile) : Move → Turnstile
  | .accept identity remoteAddress capacity =>
    { w with toLobby := w.toLobby.accept identity remoteAddress capacity }
  | .register session =>
    match w.awaited.get? session with
    | some shard => { w.begin session shard .assign with begun := session :: w.begun }
    | none => w
  | .fail session =>
    match w.awaited.get? session with
    | some shard =>
      { w with exchange := w.exchange.releaseLoad shard, failed := session :: w.failed }
    | none => w
  | .unregister session shard => if session ∈ w.returned then w.begin session shard .letGo else w
  | .proceed n => w.proceed n
  | .abandon => { w with exchange := w.exchange.mapPool fun p => { p with isReachable := false } }

/-- What a history does. -/
def run (w : Turnstile) (history : List Move) : Turnstile := history.foldl act w

/-- A history ends with its last move. -/
theorem run_append (w : Turnstile) (history : List Move) (move : Move) :
    w.run (history ++ [move]) = (w.run history).act move := by
  rw [run, List.foldl_append]
  rfl

/-! ## Calls before and after a move -/

section Calls

variable {w : Turnstile} {calls : List Call} {n shard : Nat} {c d : Call} {next : Option Call}
  {session : Session}

/-- After a step there are the calls of before, and the call as it stands now. -/
theorem mem_advance (h : d ∈ advance calls n next) : d ∈ calls ∨ next = some d := by
  cases next with
  | none => exact Or.inl (List.mem_of_mem_eraseIdx h)
  | some c => exact (List.mem_or_eq_of_mem_set h).imp_right fun heq => congrArg some heq.symm

/-- Every other call is where it was. -/
theorem mem_advance_of_ne (hc : calls[n]? = some c) (hd : d ∈ calls) (hne : d ≠ c) :
    d ∈ advance calls n next := by
  obtain ⟨k, hk⟩ := List.mem_iff_getElem?.1 hd
  have hkn : k ≠ n := by
    rintro rfl
    exact hne (Option.some.inj (hk.symm.trans hc))
  cases next with
  | none => exact List.mem_eraseIdx_iff_getElem?.2 ⟨k, hkn, hk⟩
  | some c' =>
      refine List.mem_iff_getElem?.2 ⟨k, ?_⟩
      rw [advance, List.getElem?_set_ne (Ne.symm hkn), hk]

theorem mem_advance_self (hc : calls[n]? = some c) (d : Call) : d ∈ advance calls n (some d) :=
  List.mem_set (List.getElem?_eq_some_iff.1 hc).1 _

/-- A step is the work of its call; the session is noted when the call returns. -/
theorem proceed_eq (hc : w.calls[n]? = some c) : w.proceed n =
    { w with
      exchange := (c.perform w.exchange).2
      returned :=
        if (c.perform w.exchange).1.isNone then c.session :: w.returned else w.returned
      calls := advance w.calls n (c.perform w.exchange).1 } := by
  rw [proceed, hc]

@[simp] theorem exchange_begin (w : Turnstile) (session : Session) (shard : Nat) (stage : Stage) :
    (w.begin session shard stage).exchange = w.exchange := by
  rw [begin]
  split <;> rfl

/-- A call that begins is one more. -/
theorem mem_begin {stage : Stage} (h : c ∈ (w.begin session shard stage).calls) :
    c ∈ w.calls ∨ c.leaving = none ∧ c.stage = stage ∧ c.shard = shard ∧
      w.exchange.connection? session = some c.connection := by
  rw [begin] at h
  split at h
  · next connection hconnection =>
      rcases List.mem_append.1 h with h | h
      · exact Or.inl h
      · obtain rfl := List.mem_singleton.1 h
        exact Or.inr ⟨rfl, rfl, rfl, hconnection⟩
  · exact Or.inl h

/-- A call that begins ends no other one. -/
theorem mem_begin_of_mem (hc : c ∈ w.calls) (session : Session) (shard : Nat) (stage : Stage) :
    c ∈ (w.begin session shard stage).calls := by
  rw [begin]
  split
  · exact List.mem_append_left _ hc
  · exact hc

/-- Only clients that were admitted are awaited. -/
theorem admitted_of_awaited (h : w.awaited.get? session = some shard) :
    w.admitted.get? session = some shard := by
  rw [awaited, Table.get?_filter] at h
  exact (Option.filter_eq_some_iff.1 h).1

end Calls

/-! ## Calls that nobody gets in the way of -/

/-- A call that performs step after step with nothing in between returns in some exchange. -/
inductive Call.Completes : Call → Exchange → Exchange → Prop
  | done {c : Call} {x y : Exchange} (h : c.perform x = (none, y)) : Completes c x y
  | step {c c' : Call} {x x' y : Exchange} (h : c.perform x = (some c', x'))
      (hrest : Completes c' x' y) : Completes c x y

namespace Call

variable {x y z : Exchange} {c : Connection} {session : Session} {shard : Nat} {stage : Stage}

theorem perform_shut {l : Charge} (hopen : l.isClosed = false) (hshut : x.shut l.session = (true, z)) :
    perform ⟨c, shard, some l, stage⟩ x
      = (some ⟨c, shard, some { l with isClosed := true }, stage⟩, z) := by
  simp [perform, hopen, hshut]

theorem perform_release {l : Charge} (hclosed : l.isClosed = true) (x : Exchange) :
    perform ⟨c, shard, some l, stage⟩ x
      = (some ⟨c, shard, none, stage⟩, x.releaseLoad l.shard) := by
  simp [perform, hclosed]

theorem perform_hold (x : Exchange) (c : Connection) (shard : Nat) :
    perform ⟨c, shard, none, .hold⟩ x
      = (some ⟨c, shard, ((x.enrol shard c.session).1.filter fun stale =>
          decide (stale ≠ c.session)).map (.new shard), .track⟩, (x.enrol shard c.session).2) := rfl

/-- The index is read and written in one section, so the shard before is known. -/
theorem perform_track (hreachable : x.pool.isReachable = true) (c : Connection) (shard : Nat) :
    perform ⟨c, shard, none, .track⟩ x
      = (some ⟨c, shard, none,
          match x.pool.index.get? c.identity with
          | some previous => if previous = shard then .setOnline else .evict previous
          | none => .setOnline⟩, (x.track c.identity shard).2) := by
  simp only [perform, hreachable, if_true, Exchange.track]
  cases x.pool.index.get? c.identity with
  | none => rfl
  | some previous =>
      by_cases hsame : previous = shard
      · simp only [if_pos hsame]
      · simp only [if_neg hsame]

theorem perform_evict (x : Exchange) (c : Connection) (shard previous : Nat) :
    perform ⟨c, shard, none, .evict previous⟩ x
      = (some ⟨c, shard, (x.oust previous c.identity c.session).1.map (.new previous), .setOnline⟩,
        (x.oust previous c.identity c.session).2) := rfl

theorem perform_setOnline (x : Exchange) (c : Connection) (shard : Nat) :
    perform ⟨c, shard, none, .setOnline⟩ x
      = (if (x.setOnline c.identity).1 then some ⟨c, shard, none, .announce .online⟩ else none,
        (x.setOnline c.identity).2) := by
  simp only [perform]
  cases x.setOnline c.identity with
  | mk done z => cases done <;> rfl

/-- A call whose connection does not hold its identity any more returns. -/
theorem perform_letGo (x : Exchange) (c : Connection) (shard : Nat) :
    perform ⟨c, shard, none, .letGo⟩ x
      = (if (x.letGo shard c).1 then some ⟨c, shard, some (.new shard c.session), .untrack⟩
          else none, (x.letGo shard c).2) := by
  simp only [perform]
  cases x.letGo shard c with
  | mk held z => cases held <;> rfl

theorem perform_untrack (x : Exchange) (c : Connection) (shard : Nat) :
    perform ⟨c, shard, none, .untrack⟩ x
      = (if (x.depart shard c.identity).1 then some ⟨c, shard, none, .announce .offline⟩ else none,
        (x.depart shard c.identity).2) := by
  simp only [perform]
  cases x.depart shard c.identity with
  | mk gone z => cases gone <;> rfl

/-- Closing a connection and taking it off the load is `retire`. -/
theorem completes_leaving {l : Charge} (hopen : l.isClosed = false)
    (h : Completes ⟨c, shard, none, stage⟩ (x.retire l.shard l.session) y) :
    Completes ⟨c, shard, some l, stage⟩ x y := by
  rw [Exchange.retire_eq_shut] at h
  cases hshut : x.shut l.session with
  | mk first z =>
      rw [hshut] at h
      cases first with
      -- closed now, so it is taken off the load next
      | true => exact .step (perform_shut hopen hshut) (.step (perform_release rfl z) h)
      | false =>
          -- somebody else closed it, and that call takes it off the load
          have hperform : perform ⟨c, shard, some l, stage⟩ x = (some ⟨c, shard, none, stage⟩, z) := by
            simp [perform, hopen, hshut]
          exact .step hperform h

/-- A presence service that breaks off ends the call before it tells anybody. -/
theorem completes_setOnline (x : Exchange) (c : Connection) (shard : Nat) :
    Completes ⟨c, shard, none, .setOnline⟩ x
      (match x.setOnline c.identity with
        | (true, y) => (true, y.announce (y.presenceEvent .online shard c))
        | (false, y) => (false, y)).2 := by
  have hperform := perform_setOnline x c shard
  cases h : x.setOnline c.identity with
  | mk done y =>
      rw [h] at hperform
      cases done with
      | false => exact .done hperform
      | true => exact .step hperform (.done rfl)

/-- Taking a connection out and closing it is `evict`. -/
theorem completes_evict {previous : Nat}
    (h : Completes ⟨c, shard, none, .setOnline⟩ (x.evict previous c.identity c.session) y) :
    Completes ⟨c, shard, none, .evict previous⟩ x y := by
  rw [Exchange.evict_eq_oust] at h
  have hperform := perform_evict x c shard previous
  cases houst : x.oust previous c.identity c.session with
  | mk stale z =>
      rw [houst] at h hperform
      cases stale with
      | none => exact .step hperform h
      | some stale => exact .step hperform (completes_leaving (l := .new previous stale) rfl h)

/-- Pointing the index and taking out whoever was left behind is `moveTo`. -/
theorem completes_track
    (h : Completes ⟨c, shard, none, .setOnline⟩
      (if x.pool.isReachable then x.moveTo shard c.identity c.session else x) y) :
    Completes ⟨c, shard, none, .track⟩ x y := by
  by_cases hreachable : x.pool.isReachable = true
  · have hperform := perform_track hreachable c shard
    simp only [if_pos hreachable, Exchange.moveTo, Exchange.track] at h
    cases hprevious : x.pool.index.get? c.identity with
    | none =>
        rw [hprevious] at h hperform
        exact .step hperform h
    | some previous =>
        rw [hprevious] at h hperform
        dsimp only at h hperform
        -- at the same shard nobody is left behind
        by_cases hsame : previous = shard
        · rw [if_pos hsame] at h hperform
          exact .step hperform h
        · rw [if_neg hsame] at h hperform
          exact .step hperform (completes_evict h)
  · rw [if_neg hreachable] at h
    have hperform : perform ⟨c, shard, none, .track⟩ x
        = (some ⟨c, shard, none, .setOnline⟩, x) := by simp [perform, hreachable]
    exact .step hperform h

theorem completes_hold (h : x.connection? c.session = some c)
    (hrest : ∀ stale z, x.hold shard c.session = (stale, z) →
      Completes ⟨c, shard, none, .track⟩ (z.retireDisplaced shard c.session stale) y) :
    Completes ⟨c, shard, none, .assign⟩ x y := by
  refine .step rfl ?_
  have hperform := perform_hold (x.assignShard shard c.session) c shard
  cases henrol : (x.assignShard shard c.session).enrol shard c.session with
  | mk displaced z =>
      have hrest := hrest displaced z ((Exchange.hold_eq_enrol h rfl shard).trans henrol)
      rw [henrol] at hperform
      refine .step hperform ?_
      cases displaced with
      | none => exact hrest
      | some stale =>
          -- a session that held its identity before does not displace itself
          by_cases hsame : stale = c.session
          · rw [Exchange.retireDisplaced, if_pos hsame] at hrest
            rw [Option.filter_some, if_neg (by simpa using hsame)]
            exact hrest
          · rw [Exchange.retireDisplaced, if_neg hsame] at hrest
            rw [Option.filter_some, if_pos (by simpa using hsame)]
            exact completes_leaving (l := .new shard stale) rfl hrest

/-- **The steps of a registration**, one after another, are `register`. -/
theorem completes_register (h : x.connection? session = some c) (hsession : c.session = session)
    (shard : Nat) : Completes ⟨c, shard, none, .assign⟩ x (x.register shard session).2 := by
  subst hsession
  refine completes_hold h fun stale z hhold => completes_track ?_
  rw [Exchange.register, h]
  simp only [hhold]
  exact completes_setOnline ..

/-- **The steps of an unregistration**, one after another, are `unregister`. -/
theorem completes_unregister (h : x.connection? session = some c) (hsession : c.session = session)
    (shard : Nat) : Completes ⟨c, shard, none, .letGo⟩ x (x.unregister shard session).2 := by
  subst hsession
  rw [Exchange.unregister, h]
  dsimp only
  have hletGo := perform_letGo x c shard
  cases hheld : x.letGo shard c with
  | mk held y =>
      rw [hheld] at hletGo
      cases held with
      -- superseded: there is nothing left to be done
      | false => exact .done hletGo
      | true =>
          refine .step hletGo (completes_leaving (l := .new shard c.session) rfl ?_)
          have huntrack := perform_untrack (y.retire shard c.session) c shard
          dsimp only
          cases hdepart : (y.retire shard c.session).depart shard c.identity with
          | mk gone z =>
              rw [hdepart] at huntrack
              cases gone with
              | false => exact .done huntrack
              | true => exact .step huntrack (.done rfl)

end Call

end Turnstile

end Switchboard
