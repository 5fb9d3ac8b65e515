import Switchboard.Exchange.Membership

/-!
# Who is where

Three places know who is connected: the registries of the shards say which session holds an
identity, the index says which shard speaks for it, and the presence service says whether anybody
does. `Roster` is what the three of them say, key by key, and every step of coming and going is an
equation on it: `roster_hold`, `roster_track`, `roster_evict`, `roster_setOnline`, `roster_letGo`,
`roster_untrack`. Retirement is not seen in it at all.

`Ground` is what these steps leave alone: the shards there are, who the connections belong to, and
how well the services are. The equations of both are stated together, step by step. The presence
service is taken to answer; what happens when it does not is in `changePresence`.
-/

namespace Switchboard

/-- What registries, index and presence say. -/
@[ext] structure Roster where
  /-- The session that holds an identity at a shard. -/
  holder : Nat → String → Option Session
  /-- The shard that an identity points at. -/
  index : String → Option Nat
  online : String → Bool

namespace Roster

/-- An identity still points at a shard where nobody holds it. -/
def Deserted (r : Roster) (identity : String) (shard : Nat) : Prop :=
  r.index identity = some shard ∧ r.holder shard identity = none

instance (r : Roster) (identity : String) (shard : Nat) : Decidable (r.Deserted identity shard) :=
  inferInstanceAs (Decidable (_ ∧ _))

def hold (r : Roster) (shard : Nat) (identity : String) (session : Session) : Roster :=
  { r with holder := fun s i => if s = shard ∧ i = identity then some session else r.holder s i }

def track (r : Roster) (identity : String) (shard : Nat) : Roster :=
  { r with index := fun i => if i = identity then some shard else r.index i }

def evict (r : Roster) (shard : Nat) (identity : String) (keep : Session) : Roster :=
  { r with
    holder := fun s i =>
      if s = shard ∧ i = identity ∧ r.holder s i ≠ some keep then none else r.holder s i }

def setOnline (r : Roster) (identity : String) : Roster :=
  { r with online := fun i => decide (i = identity) || r.online i }

def letGo (r : Roster) (shard : Nat) (identity : String) (session : Session) : Roster :=
  { r with
    holder := fun s i =>
      if s = shard ∧ i = identity ∧ r.holder s i = some session then none else r.holder s i }

def untrack (r : Roster) (identity : String) (shard : Nat) : Roster :=
  if r.Deserted identity shard then
    { r with
      index := fun i => if i = identity then none else r.index i
      online := fun i => decide (i ≠ identity) && r.online i }
  else r

/-- Registries, index and presence say the same of an identity. -/
structure Agrees (r : Roster) (identity : String) : Prop where
  /-- At most one shard holds it. -/
  unique : ∀ shard shard' session session', r.holder shard identity = some session →
    r.holder shard' identity = some session' → shard = shard'
  /-- The index has it just when a shard holds it, and names that shard. -/
  index : ∀ shard, r.index identity = some shard ↔ ∃ session, r.holder shard identity = some session
  /-- Its presence bit is set just when the index has it. -/
  online : r.online identity = true ↔ ∃ shard, r.index identity = some shard

end Roster

/-- What coming and going rests on. -/
@[ext] structure Ground where
  /-- The numbers of the shards. -/
  shards : List Nat
  isReachable : Bool
  outages : List Outage
  nextSession : Session
  /-- The identity and the session of the connection that is kept under a session. -/
  owner : Session → Option (String × Session)

namespace Ground

/-- Every connection is kept under its own session. -/
def Keyed (g : Ground) : Prop :=
  ∀ session identity session', g.owner session = some (identity, session') → session' = session

/-- The shards are numbered in their order. -/
def Numbered (g : Ground) : Prop := g.shards = List.range g.shards.length

end Ground

namespace Exchange

/-- What the registries, the index and the presence service of an exchange say. -/
def roster (x : Exchange) : Roster where
  holder := x.holder?
  index := x.pool.index.get?
  online := x.services.presence.isOnline

def ground (x : Exchange) : Ground where
  shards := x.pool.shards.map Shard.id
  isReachable := x.pool.isReachable
  outages := x.services.outages
  nextSession := x.nextSession
  owner session := (x.connection? session).map fun c => (c.identity, c.session)

variable {x : Exchange} {shard : Nat} {identity : String} {session : Session} {c : Connection}

theorem owner_eq (h : x.connection? session = some c) :
    x.ground.owner session = some (c.identity, c.session) :=
  congrArg (Option.map fun c : Connection => (c.identity, c.session)) h

theorem session_eq (hkeyed : x.ground.Keyed) (h : x.connection? session = some c) :
    c.session = session :=
  hkeyed session c.identity c.session (owner_eq h)

theorem numbered_new (config : Config) (services : Services) (now : Moment) :
    (new config services now).ground.Numbered := by
  simp only [ground, Ground.Numbered, Exchange.new, Pool.new, List.map_map,
    List.length_map, List.length_range]
  exact List.map_id' _

/-! ## Shards and connections after an update -/

/-- A change at one shard is a change at that shard only. -/
theorem shard?_mapShard (x : Exchange) (id : Nat) (f : Shard → Shard) (id' : Nat) :
    (x.mapShard id f).shard? id' = if id' = id then (x.shard? id').map f else x.shard? id' := by
  show (x.pool.shards.modify id f)[id']? = _
  rw [List.getElem?_modify]
  by_cases h : id' = id
  · subst h
    simp [shard?, Pool.shard?]
  · simp [shard?, Pool.shard?, h, Ne.symm h]

theorem holder_of_shard? {s : Shard} (h : x.shard? shard = some s) (identity : String) :
    x.roster.holder shard identity = s.registry.holder identity := by
  show x.holder? shard identity = _
  rw [holder?, h]

theorem holder_of_none (h : x.shard? shard = none) (identity : String) :
    x.roster.holder shard identity = none := by
  show x.holder? shard identity = _
  rw [holder?, h]

/-- Changing a shard's registry changes who holds what there. -/
theorem holder_setRegistry {s : Shard} {f : Shard → Shard} {r : Registry}
    (h : x.shard? shard = some s) (hf : (f s).registry = r) (id : Nat) (identity : String) :
    (x.mapShard shard f).roster.holder id identity
      = if id = shard then r.holder identity else x.roster.holder id identity := by
  show (x.mapShard shard f).holder? id identity
    = if id = shard then r.holder identity else x.holder? id identity
  rw [holder?, holder?, shard?_mapShard]
  by_cases hid : id = shard
  · subst hid
    rw [if_pos rfl, if_pos rfl, h, Option.map_some, ← hf]
  · rw [if_neg hid, if_neg hid]

/-- Changing a shard in anything but its registry changes nobody's holder. -/
theorem roster_mapShard {f : Shard → Shard} (hf : ∀ s, (f s).registry = s.registry)
    (x : Exchange) (id : Nat) : (x.mapShard id f).roster = x.roster := by
  refine Roster.ext (funext fun id' => funext fun identity => ?_) rfl rfl
  show (x.mapShard id f).holder? id' identity = x.holder? id' identity
  rw [holder?, holder?, shard?_mapShard]
  by_cases h : id' = id
  · rw [if_pos h]
    cases x.shard? id' with
    | none => rfl
    | some s => exact congrArg (fun r => Registry.holder r identity) (hf s)
  · rw [if_neg h]

/-- Whatever is changed of a shard, its number is kept. -/
theorem ground_mapShard {f : Shard → Shard} (hf : ∀ s, (f s).id = s.id) (x : Exchange) (id : Nat) :
    (x.mapShard id f).ground = x.ground := by
  have hids : (x.pool.shards.modify id f).map Shard.id = x.pool.shards.map Shard.id := by
    apply List.ext_getElem?
    intro k
    rw [List.getElem?_map, List.getElem?_map, List.getElem?_modify]
    cases x.pool.shards[k]? with
    | none => rfl
    | some s =>
        by_cases h : id = k
        · simp [h, hf]
        · simp [h]
  exact congrArg (fun shards => ({ x.ground with shards } : Ground)) hids

theorem connection?_putConnection (x : Exchange) (c : Connection) (session : Session) :
    (x.putConnection c).connection? session
      = if session = c.session then some c else x.connection? session :=
  Table.get?_insert ..

/-- Putting a connection back under its session leaves the ground alone. -/
theorem ground_putConnection {c' : Connection} (h : x.connection? c.session = some c)
    (hsession : c'.session = c.session) (hidentity : c'.identity = c.identity) :
    (x.putConnection c').ground = x.ground := by
  refine Ground.ext rfl rfl rfl rfl (funext fun session => ?_)
  show ((x.putConnection c').connection? session).map _ = (x.connection? session).map _
  rw [connection?_putConnection]
  -- only at its own session is there another connection, and that has the same owner
  by_cases hs : session = c'.session
  · rw [if_pos hs, hs, hsession, h, Option.map_some, Option.map_some, hsession, hidentity]
  · rw [if_neg hs]

/-! ## Retirement -/

@[simp] theorem session_close (c : Connection) : c.close.2.session = c.session := by
  rw [Connection.close]
  split <;> rfl

@[simp] theorem identity_close (c : Connection) : c.close.2.identity = c.identity := by
  rw [Connection.close]
  split <;> rfl

/-- Closes a connection, and tells whether this is the first time. -/
def shut (x : Exchange) (session : Session) : Bool × Exchange :=
  match x.connection? session with
  | none => (false, x)
  | some c => (c.close.1, x.putConnection c.close.2)

/-- Closing a connection takes nobody out of a registry. -/
@[simp] theorem roster_shut (x : Exchange) (session : Session) :
    (x.shut session).2.roster = x.roster := by
  rw [shut]
  split <;> rfl

/-- A connection that is closed still belongs to whom it belonged to. -/
theorem ground_shut (hkeyed : x.ground.Keyed) (session : Session) :
    (x.shut session).2.ground = x.ground := by
  cases h : x.connection? session with
  | none => rw [shut, h]
  | some c =>
      have hc : x.connection? c.session = some c := by rwa [session_eq hkeyed h]
      rw [shut, h]
      exact ground_putConnection hc (session_close c) (identity_close c)

@[simp] theorem roster_releaseLoad (x : Exchange) (id : Nat) :
    (x.releaseLoad id).roster = x.roster :=
  roster_mapShard (f := fun s => { s with load := s.load - 1 }) (fun _ => rfl) x id

@[simp] theorem ground_releaseLoad (x : Exchange) (id : Nat) :
    (x.releaseLoad id).ground = x.ground :=
  ground_mapShard (f := fun s => { s with load := s.load - 1 }) (fun _ => rfl) x id

/-- Whoever closes a connection first takes it off the load. -/
theorem retire_eq_shut (x : Exchange) (shard : Nat) (session : Session) :
    x.retire shard session
      = if (x.shut session).1 then (x.shut session).2.releaseLoad shard
        else (x.shut session).2 := by
  rw [retire, shut]
  cases x.connection? session with
  | none => rfl
  | some c => rfl

@[simp] theorem roster_retire (x : Exchange) (shard : Nat) (session : Session) :
    (x.retire shard session).roster = x.roster := by
  rw [retire_eq_shut]
  split
  · rw [roster_releaseLoad, roster_shut]
  · rw [roster_shut]

theorem ground_retire (hkeyed : x.ground.Keyed) (shard : Nat) (session : Session) :
    (x.retire shard session).ground = x.ground := by
  rw [retire_eq_shut]
  split
  · rw [ground_releaseLoad, ground_shut hkeyed]
  · rw [ground_shut hkeyed]

@[simp] theorem roster_retireDisplaced (x : Exchange) (shard : Nat) (session : Session)
    (displaced : Option Session) :
    (x.retireDisplaced shard session displaced).roster = x.roster := by
  rw [retireDisplaced.eq_def]
  split
  · split
    · rfl
    · exact roster_retire ..
  · rfl

theorem ground_retireDisplaced (hkeyed : x.ground.Keyed) (shard : Nat) (session : Session)
    (displaced : Option Session) :
    (x.retireDisplaced shard session displaced).ground = x.ground := by
  rw [retireDisplaced.eq_def]
  split
  · split
    · rfl
    · exact ground_retire hkeyed ..
  · rfl

/-! ## Admission -/

theorem mem_of_leastLoaded {shards : List Shard} {s : Shard} (h : leastLoaded shards = some s) :
    s ∈ shards := by
  induction shards generalizing s with
  | nil => cases h
  | cons t shards ih =>
      rw [leastLoaded] at h
      split at h
      · next u hu =>
          split at h
          · obtain rfl := Option.some.inj h
            exact List.mem_cons_of_mem _ (ih hu)
          · obtain rfl := Option.some.inj h
            exact List.mem_cons_self ..
      · obtain rfl := Option.some.inj h
        exact List.mem_cons_self ..

/-- A place is found at the shards there are, or after one more was added, or not at all. -/
theorem place_cases (x : Exchange) : x.place = x.assign ∨ x.place = x.grow.assign ∨
    ∃ fault, x.place = (.error fault, x) := by
  simp only [place]
  split
  · split
    · exact Or.inr (Or.inl rfl)
    · split
      · exact Or.inr (Or.inr ⟨_, rfl⟩)
      · exact Or.inl rfl
  · exact Or.inl rfl

/-- A client is counted for the shard that it is assigned to. -/
theorem assign_cases (x : Exchange) : (∃ s ∈ x.pool.shards, x.assign
      = (.ok s.id, x.mapShard s.id fun s => { s with load := s.load + 1 })) ∨
    ∃ fault, x.assign = (.error fault, x) := by
  rw [assign]
  cases h : leastLoaded x.pool.shards with
  | none => exact Or.inr ⟨_, rfl⟩
  | some s => exact Or.inl ⟨s, mem_of_leastLoaded h, rfl⟩

/-- Finding a place for a client changes loads and may add a shard. It leaves everything else
alone. -/
structure Placed (x y : Exchange) : Prop where
  roster : y.roster = x.roster
  connections : y.connections = x.connections
  services : y.services = x.services
  isReachable : y.pool.isReachable = x.pool.isReachable
  nextSession : y.nextSession = x.nextSession
  size : x.pool.shards.length ≤ y.pool.shards.length
  numbered : x.ground.Numbered → y.ground.Numbered

theorem Placed.refl (x : Exchange) : Placed x x :=
  ⟨rfl, rfl, rfl, rfl, rfl, Nat.le_refl _, id⟩

theorem Placed.trans {x y z : Exchange} (h : Placed x y) (h' : Placed y z) : Placed x z where
  roster := h'.roster.trans h.roster
  connections := h'.connections.trans h.connections
  services := h'.services.trans h.services
  isReachable := h'.isReachable.trans h.isReachable
  nextSession := h'.nextSession.trans h.nextSession
  size := Nat.le_trans h.size h'.size
  numbered := fun hx => h'.numbered (h.numbered hx)

theorem Placed.owner {x y : Exchange} (h : Placed x y) : y.ground.owner = x.ground.owner := by
  funext session
  show (y.connections.get? session).map _ = (x.connections.get? session).map _
  rw [h.connections]

theorem placed_assign (x : Exchange) : Placed x x.assign.2 := by
  rcases assign_cases x with ⟨s, -, h⟩ | ⟨fault, h⟩
  · rw [h]
    have hground : (x.mapShard s.id fun s => { s with load := s.load + 1 }).ground = x.ground := by
      refine ground_mapShard ?_ ..
      exact fun _ => rfl
    refine ⟨roster_mapShard ?_ .., rfl, rfl, rfl, rfl, ?_, ?_⟩
    · exact fun _ => rfl
    · exact Nat.le_of_eq (List.length_modify ..).symm
    · rw [hground]
      exact id
  · rw [h]
    exact .refl x

/-- A new shard has the next number and holds nobody, whether it is stopped or not. -/
theorem grow_eq (x : Exchange) : ∃ s : Shard, s.registry = .empty ∧ s.id = x.pool.shards.length ∧
    x.grow = x.mapPool fun p => { p with shards := p.shards ++ [s] } := by
  refine ⟨_, ?_, ?_, rfl⟩
  · split <;> rfl
  · split <;> rfl

/-- Nobody is held at a shard that is new. -/
theorem holder_grow (x : Exchange) (id : Nat) (identity : String) :
    x.grow.roster.holder id identity = x.roster.holder id identity := by
  obtain ⟨s, hregistry, -, heq⟩ := grow_eq x
  -- the new shard is one more at the end of the list
  have hshard : x.grow.shard? id
      = if id = x.pool.shards.length then some s else x.shard? id := by
    rw [heq]
    show (x.pool.shards ++ [s])[id]? = if _ then _ else x.pool.shards[id]?
    rw [List.getElem?_append]
    split
    · rw [if_neg (by omega)]
    · by_cases hid : id = x.pool.shards.length
      · rw [if_pos hid, hid, Nat.sub_self]
        rfl
      · rw [if_neg hid, List.getElem?_eq_none (by simp only [List.length_singleton]; omega),
          List.getElem?_eq_none (by omega)]
  by_cases hid : id = x.pool.shards.length
  · -- nobody was held at the number of the new shard before, and it holds nobody
    rw [if_pos hid] at hshard
    rw [holder_of_shard? hshard, holder_of_none (List.getElem?_eq_none (by omega)), hregistry]
    rfl
  · rw [if_neg hid] at hshard
    show x.grow.holder? id identity = x.holder? id identity
    rw [holder?, holder?, hshard]

theorem placed_grow (x : Exchange) : Placed x x.grow := by
  have hholder := holder_grow x
  obtain ⟨s, -, hid, heq⟩ := grow_eq x
  rw [heq] at hholder ⊢
  refine ⟨Roster.ext (funext fun id => funext fun i => hholder id i) rfl rfl, rfl, rfl, rfl, rfl,
    ?_, ?_⟩
  · show x.pool.shards.length ≤ (x.pool.shards ++ [s]).length
    rw [List.length_append]
    omega
  · -- the new shard comes last, and its number is the number of those before it
    intro (hnumbered : x.pool.shards.map Shard.id = List.range (x.pool.shards.map Shard.id).length)
    show (x.pool.shards ++ [s]).map Shard.id = List.range ((x.pool.shards ++ [s]).map Shard.id).length
    rw [List.map_append, List.map_singleton, List.length_append, List.length_singleton,
      List.range_succ, hid, ← hnumbered, List.length_map]

/-- **Looking for a place moves nobody**, whether one is found or not. -/
theorem placed_place (x : Exchange) : Placed x x.place.2 := by
  rcases place_cases x with h | h | ⟨fault, h⟩
  · rw [h]
    exact placed_assign x
  · rw [h]
    exact (placed_grow x).trans (placed_assign x.grow)
  · rw [h]
    exact .refl x

/-- A client is placed at a shard that exists. -/
theorem lt_of_assign {y : Exchange} (hnumbered : x.ground.Numbered)
    (h : x.assign = (.ok shard, y)) : shard < y.pool.shards.length := by
  have hsize := (placed_assign x).size
  rcases assign_cases x with ⟨s, hs, heq⟩ | ⟨fault, heq⟩
  · have hmem : s.id ∈ x.ground.shards := List.mem_map_of_mem hs
    rw [hnumbered, List.mem_range, ground, List.length_map] at hmem
    rw [h] at hsize heq
    -- the number of a shard is its place, so the one that was found is still there
    obtain ⟨rfl, -⟩ := Prod.mk.inj heq |>.imp Except.ok.inj id
    exact Nat.lt_of_lt_of_le hmem hsize
  · rw [h] at heq
    cases heq

/-- That holds if the shard was added for the client as well. -/
theorem lt_of_place {y : Exchange} (hnumbered : x.ground.Numbered)
    (h : x.place = (.ok shard, y)) : shard < y.pool.shards.length := by
  rcases place_cases x with heq | heq | ⟨fault, heq⟩
  · exact lt_of_assign hnumbered (heq.symm.trans h)
  · exact lt_of_assign ((placed_grow x).numbered hnumbered) (heq.symm.trans h)
  · rw [h] at heq
    cases heq

/-- Admits a client: finds a shard for it and opens a connection to be registered there. -/
def accept (x : Exchange) (identity : String) (remoteAddress : Option SocketAddress)
    (capacity : Nat) : Option (Session × Nat) × Exchange :=
  match x.place with
  | (.ok shard, x) =>
    let (session, x) := x.openConnection identity remoteAddress capacity
    (some (session, shard), x)
  | (.error _, x) => (none, x)

/-- Who is not admitted gets no connection; who is admitted gets the next session. -/
theorem accept_cases (x : Exchange) (identity : String) (remoteAddress : Option SocketAddress)
    (capacity : Nat) :
    (∃ y, Placed x y ∧ x.accept identity remoteAddress capacity = (none, y)) ∨
    ∃ y shard, Placed x y ∧ (x.ground.Numbered → shard < y.pool.shards.length) ∧
      x.accept identity remoteAddress capacity
        = (some (x.nextSession, shard),
          (y.openConnection identity remoteAddress capacity).2) := by
  have hplaced := placed_place x
  rw [accept]
  cases h : x.place with
  | mk result y =>
      rw [h] at hplaced
      cases result with
      | error fault => exact Or.inl ⟨y, hplaced, rfl⟩
      | ok shard =>
          refine Or.inr ⟨y, shard, hplaced, fun hnumbered => lt_of_place hnumbered h, ?_⟩
          rw [← hplaced.nextSession]
          rfl

/-- A connection that is opened belongs to the identity it is opened for, under the next session. -/
theorem ground_openConnection (x : Exchange) (identity : String)
    (remoteAddress : Option SocketAddress) (capacity : Nat) :
    (x.openConnection identity remoteAddress capacity).2.ground
      = { x.ground with
          nextSession := x.nextSession + 1
          owner := fun session => if session = x.nextSession then some (identity, x.nextSession)
            else x.ground.owner session } := by
  refine Ground.ext rfl rfl rfl rfl (funext fun session => ?_)
  show ((x.putConnection (.new identity x.nextSession remoteAddress capacity x.now)).connection?
    session).map _ = if session = x.nextSession then _ else (x.connection? session).map _
  rw [connection?_putConnection]
  show Option.map _ (if session = x.nextSession then _ else x.connection? session) = _
  by_cases h : session = x.nextSession
  · simp only [if_pos h, Option.map_some]
    rfl
  · simp only [if_neg h]

/-! ## The sections of a registration -/

/-- Notes the shard that a connection belongs to. -/
def assignShard (x : Exchange) (shard : Nat) (session : Session) : Exchange :=
  x.mapConnection session fun c => { c with shard := some shard }

/-- Gives the identity of a connection to it in a shard's registry, and tells who held it there. -/
def enrol (x : Exchange) (shard : Nat) (session : Session) : Option Session × Exchange :=
  match x.connection? session with
  | none => (none, x)
  | some c =>
    (x.holder? shard c.identity,
      x.mapShard shard fun s => { s with registry := (s.registry.hold c.identity session).2 })

/-- `hold` notes the shard of the connection first, and then takes the identity. -/
theorem hold_eq_enrol (h : x.connection? session = some c) (hsession : c.session = session)
    (shard : Nat) : x.hold shard session = (x.assignShard shard session).enrol shard session := by
  have hassign : x.assignShard shard session = x.putConnection { c with shard := some shard } := by
    rw [assignShard, mapConnection, h]
  have hfound : (x.putConnection { c with shard := some shard }).connection? session
      = some { c with shard := some shard } := by
    rw [connection?_putConnection, if_pos hsession.symm]
  rw [hassign, enrol, hfound, hold, h]

@[simp] theorem roster_assignShard (x : Exchange) (shard : Nat) (session : Session) :
    (x.assignShard shard session).roster = x.roster := by
  rw [assignShard, mapConnection]
  split <;> rfl

/-- The shard of a connection is not what it belongs to. -/
theorem ground_assignShard (hkeyed : x.ground.Keyed) (shard : Nat) (session : Session) :
    (x.assignShard shard session).ground = x.ground := by
  cases h : x.connection? session with
  | none => rw [assignShard, mapConnection, h]
  | some c =>
      have hc : x.connection? c.session = some c := by rwa [session_eq hkeyed h]
      rw [assignShard, mapConnection, h]
      exact ground_putConnection hc rfl rfl

/-- At a shard that exists, a registry that gives an identity to a session says that it holds it. -/
theorem roster_setHolder (hshard : (x.shard? shard).isSome) (identity : String)
    (session : Session) :
    (x.mapShard shard fun s => { s with registry := (s.registry.hold identity session).2 }).roster
      = x.roster.hold shard identity session := by
  obtain ⟨s, hs⟩ := Option.isSome_iff_exists.1 hshard
  refine Roster.ext (funext fun id => funext fun i => ?_) rfl rfl
  rw [holder_setRegistry hs rfl, Roster.hold]
  -- at other shards, and for other identities, nothing is written
  by_cases hid : id = shard
  · subst hid
    simp only [true_and, if_true, Registry.holder, Registry.hold, Table.get?_insert]
    by_cases hi : i = identity
    · rw [if_pos hi, if_pos hi]
    · rw [if_neg hi, if_neg hi]
      exact (holder_of_shard? hs i).symm
  · rw [if_neg hid]
    exact (if_neg fun hp => hid hp.1).symm

theorem roster_enrol (h : x.connection? session = some c) (hshard : (x.shard? shard).isSome) :
    (x.enrol shard session).2.roster = x.roster.hold shard c.identity session := by
  rw [enrol, h]
  exact roster_setHolder hshard c.identity session

@[simp] theorem ground_enrol (x : Exchange) (shard : Nat) (session : Session) :
    (x.enrol shard session).2.ground = x.ground := by
  rw [enrol]
  split
  · rfl
  · refine ground_mapShard ?_ ..
    exact fun _ => rfl

theorem hold_fst (h : x.connection? session = some c) (shard : Nat) :
    (x.hold shard session).1 = x.roster.holder shard c.identity := by
  rw [hold, h]
  rfl

/-- At a shard that exists, `hold` gives the identity to the session. -/
theorem roster_hold (h : x.connection? session = some c) (hshard : (x.shard? shard).isSome) :
    (x.hold shard session).2.roster = x.roster.hold shard c.identity session := by
  rw [hold, h]
  exact roster_setHolder (x := x.putConnection { c with shard := some shard }) hshard ..

theorem ground_hold (hkeyed : x.ground.Keyed) (shard : Nat) (session : Session) :
    (x.hold shard session).2.ground = x.ground := by
  cases h : x.connection? session with
  | none => rw [hold, h]
  | some c =>
      have hc : x.connection? c.session = some c := by rwa [session_eq hkeyed h]
      rw [hold, h]
      refine (ground_mapShard ?_ ..).trans (ground_putConnection hc rfl rfl)
      exact fun _ => rfl

@[simp] theorem roster_track (x : Exchange) (identity : String) (shard : Nat) :
    (x.track identity shard).2.roster = x.roster.track identity shard :=
  Roster.ext rfl (funext fun _ => Table.get?_insert ..) rfl

@[simp] theorem ground_track (x : Exchange) (identity : String) (shard : Nat) :
    (x.track identity shard).2.ground = x.ground := rfl

/-- Takes an identity from whoever holds it in a shard's registry, unless it is the session to
keep. -/
def oust (x : Exchange) (shard : Nat) (identity : String) (keep : Session) :
    Option Session × Exchange :=
  match x.shard? shard with
  | none => (none, x)
  | some s =>
    match s.registry.expel identity keep with
    | (none, _) => (none, x)
    | (some stale, registry) => (some stale, x.mapShard shard fun s => { s with registry })

/-- Whoever is not to be kept is taken out of the registry. -/
theorem oust_of_holder {keep stale : Session} (h : x.roster.holder shard identity = some stale)
    (hne : stale ≠ keep) : ∃ f : Shard → Shard, (∀ s, (f s).id = s.id) ∧
      (x.mapShard shard f).roster = x.roster.evict shard identity keep ∧
      x.oust shard identity keep = (some stale, x.mapShard shard f) := by
  cases hs : x.shard? shard with
  | none =>
      rw [holder_of_none hs] at h
      cases h
  | some s =>
      -- the registry that is written back is the one that was read, without the identity
      have hr : s.registry.get? identity = some stale := by rwa [holder_of_shard? hs] at h
      refine ⟨fun s' => { s' with registry := s.registry.erase identity }, fun _ => rfl, ?_, ?_⟩
      · refine Roster.ext (funext fun id => funext fun i => ?_) rfl rfl
        rw [holder_setRegistry hs rfl, Roster.evict]
        by_cases hid : id = shard
        · subst hid
          rw [if_pos rfl, Registry.holder, Table.get?_erase]
          by_cases hi : i = identity
          · have hkeep : x.roster.holder id i ≠ some keep := by
              rw [hi, h]
              exact fun heq => hne (Option.some.inj heq)
            rw [if_pos hi]
            exact (if_pos ⟨rfl, hi, hkeep⟩).symm
          · rw [if_neg hi]
            exact (holder_of_shard? hs i).symm.trans (if_neg fun hp => hi hp.2.1).symm
        · rw [if_neg hid]
          exact (if_neg fun hp => hid hp.1).symm
      · rw [oust, hs]
        simp only [Registry.expel_of_holder hr hne]

/-- Where the session to keep holds the identity, or nobody does, nothing happens. -/
theorem oust_of_keep {keep : Session}
    (h : ∀ stale, x.roster.holder shard identity = some stale → stale = keep) :
    x.oust shard identity keep = (none, x) := by
  rw [oust]
  cases hs : x.shard? shard with
  | none => rfl
  | some s =>
      rw [holder_of_shard? hs] at h
      simp only [Registry.expel_of_keep h]

theorem evict_roster_of_keep {r : Roster} {keep : Session}
    (h : ∀ stale, r.holder shard identity = some stale → stale = keep) :
    r.evict shard identity keep = r := by
  refine Roster.ext (funext fun id => funext fun i => ?_) rfl rfl
  simp only [Roster.evict]
  split
  · next hp =>
      -- somebody is evicted only if it is not the one to keep
      obtain ⟨rfl, rfl, hne⟩ := hp
      cases hs : r.holder id i with
      | none => rfl
      | some stale => exact absurd (hs.trans (congrArg some (h stale hs))) hne
  · rfl

/-- `oust` takes the identity at the shard from everybody but the session to keep. -/
@[simp] theorem roster_oust (x : Exchange) (shard : Nat) (identity : String) (keep : Session) :
    (x.oust shard identity keep).2.roster = x.roster.evict shard identity keep := by
  by_cases h : ∀ stale, x.roster.holder shard identity = some stale → stale = keep
  · rw [oust_of_keep h, evict_roster_of_keep h]
  · simp only [Classical.not_forall] at h
    obtain ⟨stale, hstale, hne⟩ := h
    obtain ⟨f, -, hroster, heq⟩ := oust_of_holder hstale hne
    rw [heq, hroster]

@[simp] theorem ground_oust (x : Exchange) (shard : Nat) (identity : String) (keep : Session) :
    (x.oust shard identity keep).2.ground = x.ground := by
  by_cases h : ∀ stale, x.roster.holder shard identity = some stale → stale = keep
  · rw [oust_of_keep h]
  · simp only [Classical.not_forall] at h
    obtain ⟨stale, hstale, hne⟩ := h
    obtain ⟨f, hf, -, heq⟩ := oust_of_holder hstale hne
    rw [heq, ground_mapShard hf]

/-- Whoever is taken out of the registry by `evict` is retired. -/
theorem evict_eq_oust (x : Exchange) (shard : Nat) (identity : String) (keep : Session) :
    x.evict shard identity keep
      = match x.oust shard identity keep with
        | (none, y) => y
        | (some stale, y) => y.retire shard stale := by
  rw [evict, oust]
  cases x.shard? shard with
  | none => rfl
  | some s =>
      dsimp only
      cases s.registry.expel identity keep with
      | mk stale registry =>
          cases stale with
          | none => rfl
          | some stale => rfl

theorem evict_of_holder {keep stale : Session} (h : x.roster.holder shard identity = some stale)
    (hne : stale ≠ keep) : ∃ f : Shard → Shard, (∀ s, (f s).id = s.id) ∧
      x.evict shard identity keep = (x.mapShard shard f).retire shard stale := by
  obtain ⟨f, hf, -, heq⟩ := oust_of_holder h hne
  exact ⟨f, hf, by rw [evict_eq_oust, heq]⟩

theorem evict_of_keep {keep : Session}
    (h : ∀ stale, x.roster.holder shard identity = some stale → stale = keep) :
    x.evict shard identity keep = x := by
  rw [evict_eq_oust, oust_of_keep h]

/-- `evict` takes the identity at the shard from everybody but the session to keep. -/
@[simp] theorem roster_evict (x : Exchange) (shard : Nat) (identity : String) (keep : Session) :
    (x.evict shard identity keep).roster = x.roster.evict shard identity keep := by
  rw [evict_eq_oust, ← roster_oust]
  -- retirement closes the connection, which no registry sees
  split
  · next heq => rw [heq]
  · next heq => rw [roster_retire, heq]

theorem ground_evict (hkeyed : x.ground.Keyed) (shard : Nat) (identity : String) (keep : Session) :
    (x.evict shard identity keep).ground = x.ground := by
  have hground := ground_oust x shard identity keep
  rw [evict_eq_oust]
  split
  · next heq => rwa [heq] at hground
  · next heq =>
      rw [heq] at hground
      rw [ground_retire (by rwa [hground]), hground]

/-- A presence service that answers does what it is asked. -/
theorem changePresence_of_well (h : x.services.outages = []) (call : ServiceCall)
    (f : Presence → Presence) :
    x.changePresence call f
      = (true, { x with services := { x.services with presence := f x.services.presence } }) := by
  rw [changePresence, attempt, Services.attempt_of_well h]

/-- With a presence service that answers, the bit is set. -/
theorem setOnline_fst (h : x.services.outages = []) (identity : String) :
    (x.setOnline identity).1 = true := by
  rw [setOnline, changePresence_of_well h]

/-- `setOnline` sets the bit of one identity. -/
theorem roster_setOnline (h : x.services.outages = []) (identity : String) :
    (x.setOnline identity).2.roster = x.roster.setOnline identity := by
  rw [setOnline, changePresence_of_well h]
  refine Roster.ext rfl rfl (funext fun i => ?_)
  show ((x.services.presence.insert identity ()).get? i).isSome
    = (decide (i = identity) || (x.services.presence.get? i).isSome)
  rw [Table.get?_insert]
  by_cases hi : i = identity
  · simp [hi]
  · simp [hi]

theorem ground_setOnline (h : x.services.outages = []) (identity : String) :
    (x.setOnline identity).2.ground = x.ground := by
  rw [setOnline, changePresence_of_well h]
  rfl

@[simp] theorem roster_announce (x : Exchange) (event : PresenceEvent) :
    (x.announce event).roster = x.roster := by
  rw [announce]
  split
  · split <;> rfl
  · rfl

@[simp] theorem ground_announce (x : Exchange) (event : PresenceEvent) :
    (x.announce event).ground = x.ground := by
  rw [announce]
  split
  · split <;> rfl
  · rfl

/-! ## The sections of an unregistration -/

/-- The identity is let go of only by the connection that holds it. -/
theorem letGo_fst (x : Exchange) (shard : Nat) (c : Connection) :
    (x.letGo shard c).1 = decide (x.roster.holder shard c.identity = some c.session) := by
  rw [letGo]
  cases hs : x.shard? shard with
  | none => simp [holder_of_none hs]
  | some s =>
      rw [holder_of_shard? hs]
      exact Registry.release_fst ..

/-- `letGo` takes the identity at the shard from the connection, if it is that which holds it. -/
@[simp] theorem roster_letGo (x : Exchange) (shard : Nat) (c : Connection) :
    (x.letGo shard c).2.roster = x.roster.letGo shard c.identity c.session := by
  rw [letGo]
  cases hs : x.shard? shard with
  | none =>
      refine Roster.ext (funext fun id => funext fun i => (if_neg ?_).symm) rfl rfl
      -- at a shard that does not exist nobody holds anything
      rintro ⟨rfl, -, hh⟩
      rw [holder_of_none hs] at hh
      cases hh
  | some s =>
      refine Roster.ext (funext fun id => funext fun i => ?_) rfl rfl
      dsimp only
      rw [holder_setRegistry hs rfl, Roster.letGo]
      by_cases hid : id = shard
      · subst hid
        simp only [true_and, if_true, holder_of_shard? hs]
        by_cases hr : s.registry.holder c.identity = some c.session
        · rw [Registry.release_of_holder hr, Registry.holder, Table.get?_erase]
          by_cases hi : i = c.identity
          · rw [if_pos hi, if_pos ⟨hi, hi ▸ hr⟩]
          · exact (if_neg hi).trans (if_neg fun hp => hi hp.1).symm
        · -- somebody else holds the identity, and keeps it
          rw [Registry.release_of_ne hr, if_neg]
          rintro ⟨rfl, hh⟩
          exact hr hh
      · rw [if_neg hid]
        exact (if_neg fun hp => hid hp.1).symm

@[simp] theorem ground_letGo (x : Exchange) (shard : Nat) (c : Connection) :
    (x.letGo shard c).2.ground = x.ground := by
  rw [letGo]
  split
  · rfl
  · refine ground_mapShard ?_ ..
    exact fun _ => rfl

/-- An identity that is held again is not forgotten. -/
theorem untrack_of_not_deserted (h : ¬ x.roster.Deserted identity shard) :
    x.untrack identity shard = (false, x) := by
  rw [untrack, if_neg]
  intro hdeserted
  obtain ⟨hindex, hholder⟩ := hdeserted
  exact h ⟨hindex, Option.isNone_iff_eq_none.1 hholder⟩

theorem untrack_of_deserted (hwell : x.services.outages = [])
    (h : x.roster.Deserted identity shard) :
    x.untrack identity shard = (true, { x with
      pool.index := x.pool.index.erase identity
      services.presence := x.services.presence.setOffline identity }) := by
  rw [untrack, if_pos ⟨h.1, Option.isNone_iff_eq_none.2 h.2⟩, setOffline]
  exact changePresence_of_well (x := x.mapPool fun p => { p with index := p.index.erase identity })
    hwell _ _

/-- What `untrack` tells is whether the identity was deserted. -/
theorem untrack_fst (hwell : x.services.outages = []) (identity : String) (shard : Nat) :
    (x.untrack identity shard).1 = decide (x.roster.Deserted identity shard) := by
  by_cases h : x.roster.Deserted identity shard
  · rw [untrack_of_deserted hwell h, decide_eq_true h]
  · rw [untrack_of_not_deserted h, decide_eq_false h]

/-- `untrack` forgets a deserted identity, and clears its presence bit with it. -/
theorem roster_untrack (hwell : x.services.outages = []) (identity : String) (shard : Nat) :
    (x.untrack identity shard).2.roster = x.roster.untrack identity shard := by
  by_cases h : x.roster.Deserted identity shard
  · rw [untrack_of_deserted hwell h, Roster.untrack, if_pos h]
    refine Roster.ext rfl (funext fun i => Table.get?_erase ..) (funext fun i => ?_)
    show ((x.services.presence.erase identity).get? i).isSome
      = (decide (i ≠ identity) && (x.services.presence.get? i).isSome)
    rw [Table.get?_erase]
    by_cases hi : i = identity
    · simp [hi]
    · simp [hi]
  · rw [untrack_of_not_deserted h, Roster.untrack, if_neg h]

theorem ground_untrack (hwell : x.services.outages = []) (identity : String) (shard : Nat) :
    (x.untrack identity shard).2.ground = x.ground := by
  by_cases h : x.roster.Deserted identity shard
  · rw [untrack_of_deserted hwell h]
    rfl
  · rw [untrack_of_not_deserted h]

end Exchange

end Switchboard
