import Switchboard.Proofs.Membership.Roster

/-!
# Connections on their way in

A `Lobby` is an exchange that remembers which shard each connection was admitted to and which
connections a registration was begun for. The shard and the identity of an admitted connection are
its `home`; it never changes. `Lobby.Sound` collects what holds of connections and their homes
whatever comes and goes: a session is given out once, homes are at shards that exist, and nobody is
held but at home.
-/

namespace Switchboard

/-- Nobody is anywhere, and index and presence service answer. -/
structure Exchange.Vacant (x : Exchange) : Prop where
  holder : ∀ shard identity, x.roster.holder shard identity = none
  index : ∀ identity, x.roster.index identity = none
  online : ∀ identity, x.roster.online identity = false
  keyed : x.ground.Keyed
  numbered : x.ground.Numbered
  reachable : x.ground.isReachable = true
  well : x.ground.outages = []

/-- Nobody is anywhere in a new exchange. -/
theorem Exchange.vacant_new (config : Config) (now : Moment) {services : Services}
    (hpresence : services.presence = .empty) (hwell : services.outages = []) :
    (Exchange.new config services now).Vacant := by
  refine ⟨?_, fun _ => rfl, ?_, ?_, numbered_new .., rfl, hwell⟩
  · intro shard identity
    cases hs : (Exchange.new config services now).shard? shard with
    | none => exact holder_of_none hs identity
    | some s =>
        rw [holder_of_shard? hs]
        -- every shard there is starts with an empty registry
        obtain ⟨id, -, rfl⟩ := List.mem_map.1 (List.mem_of_getElem? hs)
        rfl
  · intro identity
    show Presence.isOnline services.presence identity = false
    rw [hpresence]
    rfl
  · exact fun _ _ _ h => absurd h.symm (Option.some_ne_none _)

/-- An exchange with what happened to its connections so far. -/
structure Lobby where
  exchange : Exchange
  /-- The shard that each connection was admitted to. -/
  admitted : Table Session Nat
  /-- The connections that a registration was begun for. -/
  begun : List Session

namespace Lobby

/-- An exchange where nothing has happened yet. -/
def start (x : Exchange) : Lobby := { exchange := x, admitted := .empty, begun := [] }

/-- A client is admitted, if there is a place for it. -/
def accept (w : Lobby) (identity : String) (remoteAddress : Option SocketAddress)
    (capacity : Nat) : Lobby :=
  match w.exchange.accept identity remoteAddress capacity with
  | (some (session, shard), exchange) =>
    { w with exchange, admitted := w.admitted.insert session shard }
  | (none, exchange) => { w with exchange }

/-- The shard that a connection was admitted to, and its identity. -/
def home (w : Lobby) (session : Session) : Option (Nat × String) :=
  match w.admitted.get? session, w.exchange.ground.owner session with
  | some shard, some (identity, _) => some (shard, identity)
  | _, _ => none

/-- What holds of connections and their homes. -/
structure Sound (w : Lobby) : Prop where
  keyed : w.exchange.ground.Keyed
  numbered : w.exchange.ground.Numbered
  reachable : w.exchange.ground.isReachable = true
  well : w.exchange.ground.outages = []
  /-- Sessions that are still to be given out belong to nobody. -/
  fresh : ∀ session home, w.home session = some home → session < w.exchange.ground.nextSession
  /-- Connections are admitted to shards that exist. -/
  lodged : ∀ session shard identity, w.home session = some (shard, identity) →
    shard < w.exchange.ground.shards.length
  held : ∀ shard identity session, w.exchange.roster.holder shard identity = some session →
    w.home session = some (shard, identity)

variable {w : Lobby} {x : Exchange} {shard : Nat} {identity : String} {session : Session}

theorem sound_start (hx : x.Vacant) : (start x).Sound where
  keyed := hx.keyed
  numbered := hx.numbered
  reachable := hx.reachable
  well := hx.well
  fresh := fun _ _ h => absurd h.symm (Option.some_ne_none _)
  lodged := fun _ _ _ h => absurd h.symm (Option.some_ne_none _)
  held := fun s i _ h => absurd ((hx.holder s i).symm.trans h).symm (Option.some_ne_none _)

/-- Whoever has a home has a connection, of the identity that it is at home with. -/
theorem Sound.connection (hw : w.Sound) (h : w.home session = some (shard, identity)) :
    w.admitted.get? session = some shard ∧
      ∃ c, w.exchange.connection? session = some c ∧ c.identity = identity ∧
        c.session = session := by
  unfold home at h
  split at h
  · next shard' identity' session' hadmitted howner =>
      obtain ⟨c, hc, heq⟩ := Option.map_eq_some_iff.1 howner
      obtain ⟨rfl, rfl⟩ := Prod.mk.inj (Option.some.inj h)
      exact ⟨hadmitted, c, hc, congrArg Prod.fst heq, Exchange.session_eq hw.keyed hc⟩
  · cases h

theorem Sound.isSome_shard (hw : w.Sound) (h : w.home session = some (shard, identity)) :
    (w.exchange.shard? shard).isSome := by
  have hlt := hw.lodged session shard identity h
  rw [Exchange.ground, List.length_map] at hlt
  exact Option.isSome_iff_exists.2 ⟨_, List.getElem?_eq_getElem hlt⟩

theorem home_of_connection {c : Connection} (hadmitted : w.admitted.get? session = some shard)
    (hc : w.exchange.connection? session = some c) : w.home session = some (shard, c.identity) := by
  rw [home, hadmitted, Exchange.owner_eq hc]

/-- Homes depend on the ground only. -/
theorem home_of_ground {y : Exchange} (h : y.ground.owner = w.exchange.ground.owner)
    (begun : List Session) : ({ w with exchange := y, begun } : Lobby).home = w.home := by
  funext session
  simp only [home, h]

/-- A step that leaves the ground alone keeps the lobby sound, if nobody is held but at home. -/
theorem Sound.of_ground {y : Exchange} (hw : w.Sound) (hground : y.ground = w.exchange.ground)
    (hheld : ∀ shard identity session, y.roster.holder shard identity = some session →
      w.home session = some (shard, identity)) (begun : List Session) :
    ({ w with exchange := y, begun } : Lobby).Sound := by
  have hhome := home_of_ground (congrArg Ground.owner hground) begun
  constructor
  · rw [hground]
    exact hw.keyed
  · rw [hground]
    exact hw.numbered
  · rw [hground]
    exact hw.reachable
  · rw [hground]
    exact hw.well
  · rw [hground, hhome]
    exact hw.fresh
  · rw [hground, hhome]
    exact hw.lodged
  · rw [hhome]
    exact hheld

/-! ## Admission -/

theorem sound_placed {y : Exchange} (hw : w.Sound) (h : Exchange.Placed w.exchange y) :
    ({ w with exchange := y } : Lobby).Sound := by
  have hhome := home_of_ground (w := w) h.owner w.begun
  refine ⟨?_, h.numbered hw.numbered, h.isReachable.trans hw.reachable, ?_, ?_, ?_, ?_⟩
  · intro session identity session' howner
    rw [h.owner] at howner
    exact hw.keyed _ _ _ howner
  · exact (congrArg Services.outages h.services).trans hw.well
  · rw [hhome]
    intro session home hhome
    exact Nat.lt_of_lt_of_le (hw.fresh session home hhome) (Nat.le_of_eq h.nextSession.symm)
  · rw [hhome]
    intro session shard identity hhome
    have hlt := hw.lodged session shard identity hhome
    simp only [Exchange.ground, List.length_map] at hlt ⊢
    exact Nat.lt_of_lt_of_le hlt h.size
  · rw [hhome, h.roster]
    exact hw.held

theorem home_open (w : Lobby) (shard : Nat) (identity : String)
    (remoteAddress : Option SocketAddress) (capacity : Nat) (session : Session) :
    ({ w with
      exchange := (w.exchange.openConnection identity remoteAddress capacity).2
      admitted := w.admitted.insert w.exchange.nextSession shard } : Lobby).home session
      = if session = w.exchange.nextSession then some (shard, identity) else w.home session := by
  simp only [home, Exchange.ground_openConnection, Table.get?_insert]
  by_cases h : session = w.exchange.nextSession
  · simp only [if_pos h]
  · simp only [if_neg h]

/-- A new connection gets a home, under a session that is nobody else's. -/
theorem sound_open (hw : w.Sound) (hshard : shard < w.exchange.pool.shards.length)
    (identity : String) (remoteAddress : Option SocketAddress) (capacity : Nat) :
    ({ w with
      exchange := (w.exchange.openConnection identity remoteAddress capacity).2
      admitted := w.admitted.insert w.exchange.nextSession shard } : Lobby).Sound := by
  have hhome := home_open w shard identity remoteAddress capacity
  have hground := Exchange.ground_openConnection w.exchange identity remoteAddress capacity
  refine ⟨?_, hw.numbered, hw.reachable, hw.well, ?_, ?_, ?_⟩
  · intro session identity' session' howner
    rw [hground] at howner
    dsimp only at howner
    by_cases h : session = w.exchange.nextSession
    · rw [if_pos h] at howner
      rw [h]
      exact (congrArg Prod.snd (Option.some.inj howner)).symm
    · rw [if_neg h] at howner
      exact hw.keyed _ _ _ howner
  · intro session home h
    rw [hhome] at h
    by_cases hs : session = w.exchange.nextSession
    · exact Nat.lt_succ_of_le (Nat.le_of_eq hs)
    · rw [if_neg hs] at h
      exact Nat.lt_succ_of_lt (hw.fresh session home h)
  · intro session shard' identity' h
    rw [hhome] at h
    rw [hground]
    by_cases hs : session = w.exchange.nextSession
    · rw [if_pos hs] at h
      obtain ⟨rfl, -⟩ := Prod.mk.inj (Option.some.inj h)
      rw [Exchange.ground, List.length_map]
      exact hshard
    · rw [if_neg hs] at h
      exact hw.lodged session shard' identity' h
  · -- whoever is held has a home, and its session was given out before
    intro s i σ hσ
    have hold := hw.held s i σ hσ
    exact (hhome σ).trans ((if_neg (Nat.ne_of_lt (hw.fresh σ _ hold))).trans hold)

/-- **What admission does.** Nobody is held, and no other connection is touched. -/
theorem accept_spec (hw : w.Sound) (identity : String) (remoteAddress : Option SocketAddress)
    (capacity : Nat) :
    (w.accept identity remoteAddress capacity).Sound ∧
      (w.accept identity remoteAddress capacity).exchange.roster = w.exchange.roster ∧
      (w.accept identity remoteAddress capacity).exchange.services = w.exchange.services ∧
      (w.accept identity remoteAddress capacity).begun = w.begun ∧
      ∀ session home, w.home session = some home →
        (w.accept identity remoteAddress capacity).home session = some home ∧
        (w.accept identity remoteAddress capacity).exchange.connection? session
          = w.exchange.connection? session := by
  rw [accept]
  rcases w.exchange.accept_cases identity remoteAddress capacity with
    ⟨y, hplaced, heq⟩ | ⟨y, shard, hplaced, hshard, heq⟩
  · rw [heq]
    refine ⟨sound_placed hw hplaced, hplaced.roster, hplaced.services, rfl, ?_⟩
    intro session home h
    refine ⟨(congrFun (home_of_ground hplaced.owner w.begun) session).trans h, ?_⟩
    exact congrArg (Table.get? · session) hplaced.connections
  · rw [heq, ← hplaced.nextSession]
    have hplacedSound := sound_placed hw hplaced
    refine ⟨sound_open hplacedSound (hshard hw.numbered) .., hplaced.roster, hplaced.services,
      rfl, ?_⟩
    intro session home h
    have hold : ({ w with exchange := y } : Lobby).home session = some home :=
      (congrFun (home_of_ground hplaced.owner w.begun) session).trans h
    -- the new session is nobody else's, so nobody's connection is written over
    have hne : session ≠ y.nextSession := Nat.ne_of_lt (hplacedSound.fresh session home hold)
    constructor
    · exact (home_open { w with exchange := y } shard identity remoteAddress capacity session).trans
        ((if_neg hne).trans hold)
    · refine (Exchange.connection?_putConnection y _ session).trans ?_
      exact (if_neg hne).trans (congrArg (Table.get? · session) hplaced.connections)

end Lobby

end Switchboard
