import Switchboard.Proofs.Routing.Extent

/-!
# What waits in the queues

The `Outline` of an exchange is what waits at its shards and its connections. Routing a task takes
nothing from there: what waits stays where it is, and more may come behind it (`extends_routeTask`).
Nor does anything else that sessions, coordinators, the assistant or the consumer do, but that a
connection's writer fetches frames, the oldest first. So every step but that of taking a task, of
relaying a frame and of routing a task `Respects` the queues (`respects_act`), and so do clients that
come and go.
-/

namespace Switchboard

/-- Whether an action takes something from the queues of a shard or from a processor. -/
def Action.moves : Action → Bool
  | .take _ | .finish _ _ | .relay _ => true
  | _ => false

/-- The queues of an exchange, and its configuration. -/
@[ext] structure Outline where
  config : Config
  traffic : Nat → Traffic
  /-- The frames that wait at the connection of a session. -/
  waiting : Session → List Bytes

namespace Outline

/-- What waits or is in somebody's hand is still there, and more may have come behind it. -/
structure Grows (o o' : Outline) : Prop where
  config : o'.config = o.config
  work : ∀ shard, (o.traffic shard).work <+: (o'.traffic shard).work
  forward : ∀ shard, (o.traffic shard).forward <+: (o'.traffic shard).forward
  inHand : ∀ shard, (o'.traffic shard).inHand = (o.traffic shard).inHand
  waiting : ∀ session, o.waiting session <+: o'.waiting session

/-- Frames may have been fetched from connections, the oldest first, and nothing else happened. -/
structure Sheds (o o' : Outline) : Prop where
  config : o'.config = o.config
  traffic : o'.traffic = o.traffic
  waiting : ∀ session, o'.waiting session <:+ o.waiting session

theorem Grows.refl (o : Outline) : o.Grows o where
  config := rfl
  work _ := List.prefix_rfl
  forward _ := List.prefix_rfl
  inHand _ := rfl
  waiting _ := List.prefix_rfl

theorem Grows.trans {o o' o'' : Outline} (h : o.Grows o') (h' : o'.Grows o'') : o.Grows o'' where
  config := h'.config.trans h.config
  work shard := (h.work shard).trans (h'.work shard)
  forward shard := (h.forward shard).trans (h'.forward shard)
  inHand shard := (h'.inHand shard).trans (h.inHand shard)
  waiting session := (h.waiting session).trans (h'.waiting session)

theorem Sheds.refl (o : Outline) : o.Sheds o where
  config := rfl
  traffic := rfl
  waiting _ := List.suffix_rfl

theorem Sheds.trans {o o' o'' : Outline} (h : o.Sheds o') (h' : o'.Sheds o'') : o.Sheds o'' where
  config := h'.config.trans h.config
  traffic := h'.traffic.trans h.traffic
  waiting session := (h'.waiting session).trans (h.waiting session)

end Outline

namespace Exchange

/-- The frames that wait at the connection of a session. -/
def waiting (x : Exchange) (session : Session) : List Bytes :=
  ((x.connection? session).map fun c => c.outbound.items).getD []

def outline (x : Exchange) : Outline where
  config := x.config
  traffic := x.traffic
  waiting := x.waiting

/-- Where every connection is kept under its own session, nothing that waits is touched, and every
connection still is. -/
def Extends (x y : Exchange) : Prop :=
  x.ground.Keyed → y.ground.Keyed ∧ x.outline.Grows y.outline

variable {x y z : Exchange} {session : Session} {shard : Nat}

theorem Extends.refl (x : Exchange) : x.Extends x := fun h => ⟨h, .refl _⟩

theorem Extends.trans (h : x.Extends y) (h' : y.Extends z) : x.Extends z := by
  intro hkeyed
  obtain ⟨hkeyed, hgrows⟩ := h hkeyed
  obtain ⟨hkeyed, hgrows'⟩ := h' hkeyed
  exact ⟨hkeyed, hgrows.trans hgrows'⟩

/-- Where connections are kept is a matter of the connections only. -/
theorem keyed_of_connections (h : y.connections = x.connections) (hkeyed : x.ground.Keyed) :
    y.ground.Keyed := by
  have howner : y.ground.owner = x.ground.owner := by
    show (fun session => (y.connections.get? session).map _) = _
    rw [h]
    rfl
  intro session identity session'
  rw [howner]
  exact hkeyed session identity session'

/-- What concerns neither queues nor connections. -/
theorem extends_of_same (hconnections : y.connections = x.connections) (h : y.outline = x.outline) :
    x.Extends y :=
  fun hkeyed => ⟨keyed_of_connections hconnections hkeyed, h ▸ .refl _⟩

theorem traffic_mapShard (x : Exchange) (id : Nat) (f : Shard → Shard) (shard : Nat) :
    (x.mapShard id f).traffic shard
      = if shard = id then ((x.shard? shard).map fun s => (f s).traffic).getD {}
        else x.traffic shard := by
  rw [traffic, shard?_mapShard]
  split
  · rw [Option.map_map]
    rfl
  · rfl

theorem outline_mapShard_of_same {f : Shard → Shard} (hf : ∀ s, (f s).traffic = s.traffic)
    (x : Exchange) (id : Nat) : (x.mapShard id f).outline = x.outline := by
  refine Outline.ext rfl (funext fun shard => ?_) rfl
  show (x.mapShard id f).traffic shard = x.traffic shard
  rw [traffic_mapShard]
  split
  · simp only [hf]
    rfl
  · rfl

/-- A shard at which more waits than before. -/
theorem extends_mapShard {s : Shard} {f : Shard → Shard} (hs : x.shard? shard = some s)
    (hwork : s.work.items <+: (f s).work.items) (hforward : s.forward.items <+: (f s).forward.items)
    (hinHand : (f s).inHand = s.inHand) : x.Extends (x.mapShard shard f) := by
  intro hkeyed
  refine ⟨keyed_of_connections rfl hkeyed, ?_⟩
  have htraffic : ∀ id, (x.mapShard shard f).traffic id
      = if id = shard then (f s).traffic else x.traffic id := by
    intro id
    rw [traffic_mapShard]
    split
    · rename_i hid
      rw [hid, hs]
      rfl
    · rfl
  have hs' : x.traffic shard = s.traffic := traffic_of_shard? hs
  constructor
  · rfl
  · intro id
    show (x.traffic id).work <+: ((x.mapShard shard f).traffic id).work
    rw [htraffic]
    split
    · rename_i hid
      rw [hid, hs']
      exact hwork
    · exact List.prefix_rfl
  · intro id
    show (x.traffic id).forward <+: ((x.mapShard shard f).traffic id).forward
    rw [htraffic]
    split
    · rename_i hid
      rw [hid, hs']
      exact hforward
    · exact List.prefix_rfl
  · intro id
    show ((x.mapShard shard f).traffic id).inHand = (x.traffic id).inHand
    rw [htraffic]
    split
    · rename_i hid
      rw [hid, hs']
      exact hinHand
    · rfl
  · exact fun _ => List.prefix_rfl

/-- What a queue takes comes last. -/
theorem items_of_offer {α : Type} {q q' : Queue α} {a : α} (h : q.offer a = .ok q') :
    q'.items = q.items ++ [a] := by
  rw [Queue.offer] at h
  split at h
  · cases h
  · split at h
    · obtain rfl := Except.ok.inj h
      rfl
    · cases h

/-- A frame that is handed over comes behind those that wait. -/
theorem extends_handOver (x : Exchange) (owner : Nat) (target : String) (frame : Bytes) :
    x.Extends (x.handOver owner target frame).2 := by
  rw [handOver]
  cases hs : x.shard? owner with
  | none => exact .refl x
  | some s =>
      dsimp only
      cases hoffer : s.forward.offer { target, frame } with
      | error refusal => cases refusal <;> exact .refl x
      | ok forward =>
          refine extends_mapShard hs List.prefix_rfl ?_ rfl
          exact ⟨_, (items_of_offer hoffer).symm⟩

/-- Only the connection that is put back has other frames waiting. -/
theorem waiting_putConnection (x : Exchange) (c : Connection) (session : Session) :
    (x.putConnection c).waiting session
      = if session = c.session then c.outbound.items else x.waiting session := by
  rw [waiting, connection?_putConnection]
  split
  · rfl
  · rfl

theorem keyed_putConnection (hkeyed : x.ground.Keyed) (c : Connection) :
    (x.putConnection c).ground.Keyed := by
  intro τ identity session' howner
  change ((x.putConnection c).connection? τ).map _ = _ at howner
  rw [connection?_putConnection] at howner
  split at howner
  · -- it is put back under its own session
    rename_i hτ
    obtain ⟨-, rfl⟩ := Prod.mk.inj (Option.some.inj howner)
    exact hτ.symm
  · exact hkeyed τ identity session' howner

theorem items_of_send {c c' : Connection} {frame : Bytes} (h : c.send frame = .ok c') :
    c'.outbound.items = c.outbound.items ++ [frame] ∧ c'.session = c.session := by
  rw [Connection.send] at h
  split at h
  · cases h
  · split at h
    · rename_i hoffer
      obtain rfl := Except.ok.inj h
      exact ⟨items_of_offer hoffer, rfl⟩
    · cases h
    · cases h

/-- A frame is put behind what waits at a connection, or nothing happens. -/
theorem sendTo_snd_cases (x : Exchange) (session : Session) (frame : Bytes) :
    (x.sendTo session frame).2 = x ∨
      ∃ c c', x.connection? session = some c ∧ c.send frame = .ok c' ∧
        (x.sendTo session frame).2 = x.putConnection c' := by
  rw [sendTo]
  cases hc : x.connection? session with
  | none => exact Or.inl rfl
  | some c =>
      dsimp only
      cases hsend : c.send frame with
      | error fault => exact Or.inl rfl
      -- there is room and the connection is open
      | ok c' => exact Or.inr ⟨c, c', rfl, hsend, rfl⟩

/-- A frame that is sent comes behind those that wait. -/
theorem extends_sendTo (x : Exchange) (session : Session) (frame : Bytes) :
    x.Extends (x.sendTo session frame).2 := by
  intro hkeyed
  rcases x.sendTo_snd_cases session frame with heq | ⟨c, c', hc, hsend, heq⟩
  · rw [heq]
    exact ⟨hkeyed, .refl _⟩
  · obtain ⟨hitems, hsession⟩ := items_of_send hsend
    rw [heq]
    refine ⟨keyed_putConnection hkeyed c', rfl, fun _ => List.prefix_rfl,
      fun _ => List.prefix_rfl, fun _ => rfl, fun τ => ?_⟩
    show x.waiting τ <+: (x.putConnection c').waiting τ
    rw [waiting_putConnection]
    split
    · rename_i hτ
      -- the connection is its session's, so the frame comes behind those that wait there
      rw [hsession, session_eq hkeyed hc] at hτ
      rw [hτ, waiting, hc, hitems]
      exact List.prefix_append _ _
    · exact List.prefix_rfl

/-- **Routing touches nothing that waits.** -/
theorem bears_extends : Routing.Bears (fun _ => True) Extends where
  refl := .refl
  trans := .trans
  attempt _ _ := extends_of_same rfl rfl
  fresh _ := extends_of_same rfl rfl
  count x shard f := by
    refine extends_of_same rfl (outline_mapShard_of_same ?_ ..)
    exact fun _ => rfl
  assemble x shard assembler := by
    refine extends_of_same rfl (outline_mapShard_of_same ?_ ..)
    exact fun _ => rfl
  persist _ _ := extends_of_same rfl rfl
  sendTo x session frame _ := extends_sendTo x session frame
  handOver x owner target frame _ := extends_handOver x owner target frame
  publish {x event y} _ h := by
    rw [Exchange.publish] at h
    split at h
    · split at h
      · obtain rfl := Option.some.inj h
        exact extends_of_same rfl rfl
      · cases h
    · cases h
  ask _ _ := extends_of_same rfl rfl

/-- **Routing a task takes nothing from any queue.** -/
theorem extends_routeTask (x : Exchange) (shard : Nat) (task : Task) :
    x.Extends (x.routeTask shard task) :=
  Routing.keeps_routeTask bears_extends ⟨fun _ => trivial, fun _ _ _ _ _ _ _ _ _ _ => trivial⟩

/-! ## What changes no queue -/

/-- Nothing waits that did not wait before, and everything that did. -/
def Same (x y : Exchange) : Prop :=
  x.ground.Keyed → y.ground.Keyed ∧ y.outline = x.outline

/-- Frames may have been fetched from connections. -/
def Yields (x y : Exchange) : Prop :=
  x.ground.Keyed → y.ground.Keyed ∧ x.outline.Sheds y.outline

/-- More may wait than before, or frames may have been fetched from connections. -/
def Respects (x y : Exchange) : Prop :=
  x.ground.Keyed → y.ground.Keyed ∧ (x.outline.Grows y.outline ∨ x.outline.Sheds y.outline)

theorem Same.refl (x : Exchange) : x.Same x := fun h => ⟨h, rfl⟩

theorem Same.trans (h : x.Same y) (h' : y.Same z) : x.Same z := by
  intro hkeyed
  obtain ⟨hkeyed, hsame⟩ := h hkeyed
  obtain ⟨hkeyed, hsame'⟩ := h' hkeyed
  exact ⟨hkeyed, hsame'.trans hsame⟩

theorem Yields.trans (h : x.Yields y) (h' : y.Yields z) : x.Yields z := by
  intro hkeyed
  obtain ⟨hkeyed, hsheds⟩ := h hkeyed
  obtain ⟨hkeyed, hsheds'⟩ := h' hkeyed
  exact ⟨hkeyed, hsheds.trans hsheds'⟩

/-- Nothing that changes no queue takes anything from one. -/
theorem Same.extends (h : x.Same y) : x.Extends y := by
  intro hkeyed
  obtain ⟨hkeyed, hsame⟩ := h hkeyed
  exact ⟨hkeyed, hsame ▸ .refl _⟩

theorem Same.yields (h : x.Same y) : x.Yields y := by
  intro hkeyed
  obtain ⟨hkeyed, hsame⟩ := h hkeyed
  exact ⟨hkeyed, hsame ▸ .refl _⟩

theorem Extends.respects (h : x.Extends y) : x.Respects y := by
  intro hkeyed
  obtain ⟨hkeyed, hgrows⟩ := h hkeyed
  exact ⟨hkeyed, Or.inl hgrows⟩

theorem Yields.respects (h : x.Yields y) : x.Respects y := by
  intro hkeyed
  obtain ⟨hkeyed, hsheds⟩ := h hkeyed
  exact ⟨hkeyed, Or.inr hsheds⟩

theorem same_of_eq (hconnections : y.connections = x.connections) (h : y.outline = x.outline) :
    x.Same y :=
  fun hkeyed => ⟨keyed_of_connections hconnections hkeyed, h⟩

theorem same_mapShard {f : Shard → Shard} (hf : ∀ s, (f s).traffic = s.traffic) (x : Exchange)
    (id : Nat) : x.Same (x.mapShard id f) :=
  same_of_eq rfl (outline_mapShard_of_same hf x id)

theorem same_mapSocket (x : Exchange) (session : Session) (f : Socket → Socket) :
    x.Same (x.mapSocket session f) := by
  rw [mapSocket]
  split
  · exact same_of_eq rfl rfl
  · exact .refl x

/-- Putting a connection back with frames that waited there before. -/
theorem yields_putConnection {c c' : Connection} (hc : x.connection? session = some c)
    (hsession : c'.session = c.session) (hitems : c'.outbound.items <:+ c.outbound.items) :
    x.Yields (x.putConnection c') := by
  intro hkeyed
  refine ⟨keyed_putConnection hkeyed c', rfl, rfl, fun τ => ?_⟩
  show (x.putConnection c').waiting τ <:+ x.waiting τ
  rw [waiting_putConnection]
  split
  · -- the connection was kept under its session, so it is the one whose frames are spoken of
    rename_i hτ
    rw [hsession, session_eq hkeyed hc] at hτ
    rw [hτ, waiting, hc]
    exact hitems
  · exact List.suffix_rfl

theorem same_putConnection {c c' : Connection} (hc : x.connection? session = some c)
    (hsession : c'.session = c.session) (hitems : c'.outbound.items = c.outbound.items) :
    x.Same (x.putConnection c') := by
  intro hkeyed
  refine ⟨keyed_putConnection hkeyed c', Outline.ext rfl rfl (funext fun τ => ?_)⟩
  show (x.putConnection c').waiting τ = x.waiting τ
  rw [waiting_putConnection]
  split
  · rename_i hτ
    rw [hsession, session_eq hkeyed hc] at hτ
    rw [hτ, waiting, hc, hitems]
    rfl
  · rfl

/-- What changes of a connection is neither whose it is nor what waits there. -/
theorem same_mapConnection {f : Connection → Connection} (hsession : ∀ c, (f c).session = c.session)
    (hitems : ∀ c, (f c).outbound.items = c.outbound.items) (x : Exchange) (session : Session) :
    x.Same (x.mapConnection session f) := by
  rw [mapConnection]
  cases hc : x.connection? session with
  | none => exact .refl x
  | some c => exact same_putConnection hc (hsession c) (hitems c)

/-! ## Sessions -/

/-- A task comes behind those that wait, or is counted as dropped. -/
theorem extends_submit (x : Exchange) (shard : Nat) (task : Task) :
    x.Extends (x.submit shard task).2 := by
  rw [submit]
  cases hs : x.shard? shard with
  | none => exact .refl x
  | some s =>
      dsimp only
      cases hoffer : s.work.offer task with
      | error refusal =>
          cases refusal with
          | full => exact bears_extends.count _ _ _
          | closed => exact .refl x
      | ok work =>
          refine extends_mapShard hs ?_ List.prefix_rfl rfl
          exact ⟨_, (items_of_offer hoffer).symm⟩

theorem extends_enqueue (x : Exchange) (shard : Nat) (raw : Bytes) (target : Option String) :
    x.Extends (x.enqueue shard raw target).2 := by
  rw [enqueue.eq_def]
  split
  · exact bears_extends.count _ _ _
  · exact extends_submit _ _ _

theorem same_touch (x : Exchange) (session : Session) : x.Same (x.touch session) := by
  refine same_mapConnection ?_ ?_ x session
  · exact fun _ => rfl
  · exact fun _ => rfl

/-- A message that was read comes behind the tasks that wait. A heartbeat is answered behind the
frames that wait at the connection. -/
theorem extends_takeIn (x : Exchange) (session : Session) (e : Envelope) (raw : Bytes) :
    x.Extends (x.takeIn session e raw) := by
  rw [takeIn]
  split
  · exact (same_touch x session).extends.trans (extends_sendTo _ _ _)
  · split
    · exact extends_submit _ _ _
    · exact .refl x

theorem same_stopReader (x : Exchange) (session : Session) : x.Same (x.stopReader session) := by
  refine (same_mapSocket x session _).trans (same_mapConnection ?_ ?_ _ session)
  · exact fun _ => rfl
  · exact fun _ => rfl

theorem extends_readItem (x : Exchange) (session : Session) (item : Incoming) :
    x.Extends (x.readItem session item) := by
  cases item with
  | binary frame =>
      rw [readItem]
      split
      · exact extends_takeIn _ _ _ _
      · exact .refl x
  | text frame =>
      rw [readItem]
      split
      · exact extends_takeIn _ _ _ _
      · exact .refl x
  | ping length => exact (same_touch x session).extends
  | pong => exact (same_touch x session).extends
  | close => exact (same_stopReader x session).extends
  | failure => exact (same_stopReader x session).extends
  | ended => exact (same_stopReader x session).extends

/-- Reading takes nothing from any queue: what is read was not in one. -/
theorem extends_read (x : Exchange) (session : Session) : x.Extends (x.read session) := by
  rw [read]
  split
  · split
    · exact .refl x
    · split
      · exact (same_stopReader x session).extends
      · split
        · exact .refl x
        · exact (same_mapSocket x session _).extends.trans (extends_readItem _ _ _)
  · exact .refl x

/-- The frames that wait are lost with the writer. -/
theorem yields_dropWriter (x : Exchange) (session : Session) : x.Yields (x.dropWriter session) := by
  refine (same_mapSocket x session fun s => { s with isWriting := false }).yields.trans ?_
  show Yields _ (mapConnection _ session _)
  rw [mapConnection]
  split
  · rename_i c hc
    exact yields_putConnection hc rfl List.nil_suffix
  · exact (Same.refl _).yields

theorem yields_stopWriter (x : Exchange) (session : Session) : x.Yields (x.stopWriter session) :=
  (same_mapSocket x session _).yields.trans (yields_dropWriter _ session)

/-- A writer fetches the oldest frame, or stops. -/
theorem yields_write (x : Exchange) (session : Session) : x.Yields (x.write session) := by
  rw [write]
  split
  · rename_i s c hs hc
    split
    · exact (Same.refl x).yields
    · split
      · exact yields_stopWriter x session
      · split
        · exact (Same.refl x).yields
        · rename_i frame outbound htake
          -- the frame that is written is the oldest one
          have hitems : outbound.items <:+ c.outbound.items := by
            cases hq : c.outbound.items with
            | nil =>
                rw [Queue.take?_of_nil hq] at htake
                cases htake
            | cons first rest =>
                obtain ⟨q', hq', hrest, -⟩ := Queue.take?_of_cons hq
                rw [hq'] at htake
                obtain ⟨-, rfl⟩ := Prod.mk.inj (Option.some.inj htake)
                rw [hrest]
                exact List.suffix_cons _ _
          have hput : x.Yields (x.putConnection { c with outbound }) :=
            yields_putConnection hc rfl hitems
          dsimp only
          split
          · -- the socket is broken: the frame is gone, and the writer stops
            exact hput.trans (yields_stopWriter _ _)
          · exact hput.trans (same_mapSocket _ session _).yields
  · exact (Same.refl x).yields

/-- A ping goes around the queue. -/
theorem yields_ping (x : Exchange) (session : Session) : x.Yields (x.ping session) := by
  rw [ping]
  split
  · split
    · exact (Same.refl x).yields
    · dsimp only
      split
      · exact (same_mapSocket x session _).yields.trans (yields_stopWriter _ _)
      · exact ((same_mapSocket x session _).trans (same_mapSocket _ session _)).yields
  · exact (Same.refl x).yields

/-! ## Coming and going -/

/-- Closing a connection leaves its frames waiting: what is queued may still be read. -/
theorem same_retire (x : Exchange) (shard : Nat) (session : Session) :
    x.Same (x.retire shard session) := by
  rw [retire]
  cases hc : x.connection? session with
  | none => exact .refl x
  | some c =>
      dsimp only
      have hclose : x.Same (x.putConnection c.close.2) := by
        refine same_putConnection hc (session_close c) ?_
        rw [Connection.close]
        -- closing it twice does as little to the frames as closing it once
        split <;> rfl
      split
      · refine hclose.trans (same_mapShard ?_ _ shard)
        exact fun _ => rfl
      · exact hclose

theorem same_letGo (x : Exchange) (shard : Nat) (c : Connection) :
    x.Same (x.letGo shard c).2 := by
  rw [letGo]
  split
  · exact .refl x
  · refine same_mapShard ?_ x shard
    exact fun _ => rfl

theorem same_changePresence (x : Exchange) (call : ServiceCall) (f : Presence → Presence) :
    x.Same (x.changePresence call f).2 := by
  rw [changePresence]
  split <;> (rename_i h; obtain rfl := (Prod.mk.inj h).2; exact same_of_eq rfl rfl)

/-- Index and presence are no queues. -/
theorem same_depart (x : Exchange) (shard : Nat) (identity : String) :
    x.Same (x.depart shard identity).2 := by
  rw [depart]
  split
  · rw [untrack]
    split
    · have herase : x.Same (x.mapPool fun p => { p with index := p.index.erase identity }) :=
        same_of_eq rfl rfl
      exact herase.trans (same_changePresence _ _ _)
    · exact .refl x
  · exact same_changePresence _ _ _

theorem same_announce (x : Exchange) (event : PresenceEvent) : x.Same (x.announce event) := by
  rw [announce]
  split
  · split
    · exact same_of_eq rfl rfl
    · exact .refl x
  · exact .refl x

/-- A client that goes takes nothing along. -/
theorem same_unregister (x : Exchange) (shard : Nat) (session : Session) :
    x.Same (x.unregister shard session).2 := by
  rw [unregister]
  cases hc : x.connection? session with
  | none => exact .refl x
  | some c =>
      have hgo := same_letGo x shard c
      dsimp only
      cases hletGo : x.letGo shard c with
      | mk held y =>
          rw [hletGo] at hgo
          cases held with
          -- somebody else holds the identity by now, and nothing is undone
          | false => exact hgo
          | true =>
              have hdepart : x.Same ((y.retire shard session).depart shard c.identity).2 :=
                hgo.trans ((same_retire _ _ _).trans (same_depart _ _ _))
              dsimp only
              split
              · exact hdepart.trans (same_announce _ _)
              · exact hdepart

theorem same_hold (x : Exchange) (shard : Nat) (session : Session) :
    x.Same (x.hold shard session).2 := by
  rw [hold]
  cases hc : x.connection? session with
  | none => exact .refl x
  | some c =>
      have hassigned : x.Same (x.putConnection { c with shard := some shard }) :=
        same_putConnection hc rfl rfl
      refine hassigned.trans (same_mapShard ?_ _ shard)
      exact fun _ => rfl

/-- A connection that is superseded is closed, and its frames still wait. -/
theorem same_evict (x : Exchange) (shard : Nat) (identity : String) (keep : Session) :
    x.Same (x.evict shard identity keep) := by
  rw [evict]
  split
  · exact .refl x
  · split
    · exact .refl x
    · rename_i s _ stale registry _
      have hregistry : x.Same (x.mapShard shard fun s => { s with registry }) := by
        refine same_mapShard ?_ x shard
        exact fun _ => rfl
      exact hregistry.trans (same_retire _ _ _)

theorem same_moveTo (x : Exchange) (shard : Nat) (identity : String) (session : Session) :
    x.Same (x.moveTo shard identity session) := by
  have htrack : x.Same (x.track identity shard).2 := same_of_eq rfl rfl
  rw [moveTo]
  split
  · rename_i h
    rw [h] at htrack
    split
    · exact htrack
    · exact htrack.trans (same_evict _ _ _ _)
  · rename_i h
    rw [h] at htrack
    exact htrack

/-- A client that comes brings nothing along. -/
theorem same_register (x : Exchange) (shard : Nat) (session : Session) :
    x.Same (x.register shard session).2 := by
  rw [register]
  cases x.connection? session with
  | none => exact .refl x
  | some c =>
      have hheld := same_hold x shard session
      dsimp only
      cases hhold : x.hold shard session with
      | mk displaced y =>
          rw [hhold] at hheld
          have hretired : y.Same (y.retireDisplaced shard session displaced) := by
            cases displaced with
            | none => exact .refl y
            | some stale =>
                rw [retireDisplaced]
                split
                · exact .refl y
                · exact same_retire _ _ _
          -- the pool is told, if there is still one
          have hmoved : ∀ z : Exchange, z.Same
              (if z.pool.isReachable then z.moveTo shard c.identity session else z) := by
            intro z
            split
            · exact same_moveTo _ _ _ _
            · exact .refl z
          have honline := (hheld.trans (hretired.trans (hmoved _))).trans
            (same_changePresence _ .setOnline (·.setOnline c.identity))
          dsimp only
          split
          · rename_i h
            rw [setOnline] at h
            rw [h] at honline
            exact honline.trans (same_announce _ _)
          · rename_i h
            rw [setOnline] at h
            rw [h] at honline
            exact honline

/-- A connection that is opened is a new one, so nothing waits at it. -/
theorem yields_enter (x : Exchange) (shard : Nat) (identity : String)
    (remoteAddress : Option SocketAddress) (capacity : Nat) :
    x.Yields (x.enter shard identity remoteAddress capacity).2 := by
  have hopen : x.Yields (x.openConnection identity remoteAddress capacity).2 := by
    intro hkeyed
    refine ⟨keyed_putConnection hkeyed _, rfl, rfl, fun τ => ?_⟩
    show (x.putConnection _).waiting τ <:+ x.waiting τ
    rw [waiting_putConnection]
    split
    · exact List.nil_suffix
    · exact List.suffix_rfl
  exact hopen.trans (same_register _ _ _).yields

/-- A session that is over unregisters, whatever still waits at its connection. -/
theorem same_conclude (x : Exchange) (session : Session) : x.Same (x.conclude session) := by
  rw [conclude]
  split
  · split
    · exact (same_mapSocket x session _).trans (same_unregister _ _ _)
    · exact .refl x
  · exact .refl x

/-! ## The assistant and the consumer -/

/-- An answer is a task like others. -/
theorem extends_answer (x : Exchange) : x.Extends x.answer := by
  cases hprompts : x.pool.prompts with
  | nil =>
      rw [answer, hprompts]
      exact .refl x
  | cons prompt prompts =>
      have hgone : x.Extends (x.mapPool fun p => { p with prompts }) := extends_of_same rfl rfl
      have hattempt := hgone.trans (bears_extends.attempt _ .complete)
      rw [answer, hprompts]
      dsimp only
      cases hcall : (x.mapPool fun p => { p with prompts }).attempt .complete with
      | mk result y =>
          rw [hcall] at hattempt
          cases (x.mapPool fun p => { p with prompts }).services.assistant with
          -- the prompt is gone whether or not there is an answer
          | none => exact hattempt
          | some assistant =>
              cases result with
              | error stop => exact hattempt
              | ok u =>
                  dsimp only
                  split
                  · exact hattempt.trans ((bears_extends.fresh y).trans (extends_submit _ _ _))
                  · exact hattempt

theorem extends_stopConsumer (x : Exchange) : x.Extends x.stopConsumer := by
  rw [stopConsumer]
  split
  · exact extends_of_same rfl rfl
  · exact extends_of_same rfl rfl

/-- What the consumer writes comes behind the frames that wait. -/
theorem extends_consume (x : Exchange) : x.Extends x.consume := by
  rw [consume]
  split
  · rename_i subscriber broker _ _
    dsimp only
    have hread : x.Extends { x with services.publishing := .broker (broker.read subscriber).2 } :=
      extends_of_same rfl rfl
    split
    · -- reading from the broker touches no queue, so what is left is writing the frames
      refine hread.trans (Routing.keeps_handlePublished bears_extends extends_stopConsumer ?_ _)
      exact fun _ _ => trivial
    · exact hread
  · exact .refl x

/-! ## All of them -/

theorem same_sweep (x : Exchange) (shard : Nat) : x.Same (x.sweep shard) := by
  refine same_mapShard ?_ x shard
  exact fun _ => rfl

/-- **Whatever else is done respects the queues.** -/
theorem respects_act (x : Exchange) {action : Action} (h : action.moves = false) :
    x.Respects (x.act action) := by
  cases action with
  | take shard => cases h
  | finish shard slot => cases h
  | relay shard => cases h
  | sweep shard => exact (same_sweep x shard).extends.respects
  | answer => exact (extends_answer x).respects
  | consume => exact (extends_consume x).respects
  | read session => exact (extends_read x session).respects
  | write session => exact (yields_write x session).respects
  | ping session => exact (yields_ping x session).respects
  | conclude session => exact (same_conclude x session).extends.respects

end Exchange

end Switchboard
