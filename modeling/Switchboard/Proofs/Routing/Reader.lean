import Switchboard.Proofs.Routing.Legible

/-!
# The reader of a session

A reader takes what comes over its socket one item after another, up to the first that stops it.
One step of it is told by the item alone: the task it queues, the frame it queues, and whether it notes
a sign of life; and it touches nothing else in the whole exchange (`does_read`). In between,
processors, writers, clocks and other sessions do as they please, and more items may come.

A `Shift` is a stretch of such a time, with the steps of the reader in it. The tasks that the reader
queues in a shift are those of the items before the first that stops it, in their order, the frames
are the answers to the heartbeats among them, and what comes later has no effect
(`attended_of_shift`).
-/

namespace Switchboard

/-! ## Items -/

namespace Incoming

/-- The envelope that an item is read as, and the octets that it goes on with. A text goes on in the
binary form. -/
def envelope? : Incoming → Option (Envelope × Bytes)
  | .binary frame =>
    match Envelope.decode frame with
    | .ok e => some (e, frame)
    | .error _ => none
  | .text frame =>
    match Envelope.ofTextFrame frame with
    | .ok e => some (e, e.encode)
    | .error _ => none
  | _ => none

/-- Whether an item is a heartbeat, in either form. -/
def isHeartbeat (item : Incoming) : Bool := item.envelope?.any fun (e, _) => e.isHeartbeat

/-- The task that an item asks for. -/
def task? (item : Incoming) : Option Task :=
  (item.envelope?.filter fun (e, _) => !e.isHeartbeat).map fun (e, raw) =>
    { envelope := e, raw, origin := .inbound }

/-- The frame that an item is answered with at some time. -/
def pong? (item : Incoming) (stamp : Int64) : Option Bytes :=
  if item.isHeartbeat then some (Envelope.pong stamp).encode else none

/-- Whether an item is a sign of life. -/
def isSign : Incoming → Bool
  | .ping _ | .pong => true
  | item => item.isHeartbeat

/-- Whether an item stops the reader. -/
def isLast : Incoming → Bool
  | .close | .failure | .ended => true
  | _ => false

/-- The items before the first that stops the reader. -/
def beforeLast (items : List Incoming) : List Incoming := items.takeWhile fun item => !item.isLast

variable {item : Incoming} {e : Envelope} {raw : Bytes}

theorem cases_of_envelope? (h : item.envelope? = some (e, raw)) :
    (∃ frame, item = .binary frame) ∨ ∃ frame, item = .text frame := by
  -- only frames are read as an envelope
  cases item with
  | binary frame => exact Or.inl ⟨frame, rfl⟩
  | text frame => exact Or.inr ⟨frame, rfl⟩
  | ping length => cases h
  | pong => cases h
  | close => cases h
  | failure => cases h
  | ended => cases h

theorem isHeartbeat_of_envelope? (h : item.envelope? = some (e, raw)) :
    item.isHeartbeat = e.isHeartbeat := by
  rw [isHeartbeat, h]
  rfl

theorem isSign_of_envelope? (h : item.envelope? = some (e, raw)) :
    item.isSign = e.isHeartbeat := by
  rw [← isHeartbeat_of_envelope? h]
  rcases cases_of_envelope? h with ⟨frame, rfl⟩ | ⟨frame, rfl⟩
  · rfl
  · rfl

theorem isLast_of_envelope? (h : item.envelope? = some (e, raw)) : item.isLast = false := by
  rcases cases_of_envelope? h with ⟨frame, rfl⟩ | ⟨frame, rfl⟩
  · rfl
  · rfl

theorem task?_of_envelope? (h : item.envelope? = some (e, raw)) :
    item.task? = if e.isHeartbeat then none else some (Exchange.inbound e raw) := by
  rw [task?, h]
  cases hbeat : e.isHeartbeat with
  | true => simp [Option.filter, hbeat]
  | false => simp [Option.filter, hbeat, Exchange.inbound]

theorem pong?_of_envelope? (h : item.envelope? = some (e, raw)) (stamp : Int64) :
    item.pong? stamp = if e.isHeartbeat then some (Envelope.pong stamp).encode else none := by
  rw [pong?, isHeartbeat_of_envelope? h]

theorem isHeartbeat_of_none (h : item.envelope? = none) : item.isHeartbeat = false := by
  rw [isHeartbeat, h]
  rfl

/-- What cannot be read asks for nothing. -/
theorem task?_of_none (h : item.envelope? = none) : item.task? = none := by
  rw [task?, h]
  rfl

theorem pong?_of_none (h : item.envelope? = none) (stamp : Int64) : item.pong? stamp = none := by
  rw [pong?, isHeartbeat_of_none h]
  rfl

end Incoming

/-! ## Desks -/

/-- What the reader of a session has before it. -/
@[ext] structure Desk where
  isReading : Bool
  /-- What came over the socket and was not read, as the socket passes it on. -/
  items : List Incoming
  isCancelled : Bool
  /-- The shard of the connection. -/
  shard : Option Nat
  deriving DecidableEq

namespace Desk

def of (s : Socket) (c : Connection) : Desk :=
  { isReading := s.isReading, items := s.incoming.map s.wire.pass, isCancelled := c.isCancelled
    shard := c.shard }

/-- The desk of a reader at work. -/
def reading (items : List Incoming) (shard : Nat) : Desk :=
  { isReading := true, items, isCancelled := false, shard := some shard }

/-- The desk of a reader that is done. -/
def stopped (shard : Nat) : Desk :=
  { isReading := false, items := [], isCancelled := true, shard := some shard }

/-- The desk after an item was read, with what lay behind it. -/
def turn (item : Incoming) (rest : List Incoming) (shard : Nat) : Desk :=
  if item.isLast then stopped shard else reading rest shard

end Desk

/-! ## What a reader leaves alone -/

def Socket.still (s : Socket) : Socket :=
  { s with incoming := [], outgoing := [], isReading := true }

def Connection.still (c : Connection) : Connection :=
  { c with lastHeartbeat := 0, outbound := c.outbound.clear, isCancelled := false }

/-- Whether a connection takes one more frame. -/
def Connection.CanTake (c : Connection) : Prop :=
  c.isClosed = false ∧ c.outbound.Accepts c.outbound.depth 1

instance (c : Connection) : Decidable c.CanTake := inferInstanceAs (Decidable (_ ∧ _))

/-- What the reader of a session at a shard has nothing to do with. -/
@[ext] structure Surroundings where
  /-- The exchange without the socket, the connection and the tasks that wait at the shard. -/
  rest : Exchange
  /-- The socket but for what came over it and what it answers by itself. -/
  socket : Option Socket
  /-- The connection but for its frames, its heartbeat time and whether it is cancelled. -/
  connection : Option Connection

namespace Exchange

def surroundings (x : Exchange) (session : Session) (shard : Nat) : Surroundings where
  rest := { x with
    pool := { x.pool with
      shards := x.pool.shards.modify shard fun s => { s with work := s.work.clear }
      sockets := x.pool.sockets.erase session }
    connections := x.connections.erase session }
  socket := (x.socket? session).map Socket.still
  connection := (x.connection? session).map Connection.still

def desk? (x : Exchange) (session : Session) : Option Desk :=
  match x.socket? session, x.connection? session with
  | some s, some c => some (.of s c)
  | _, _ => none

/-- When the client of a session last gave a sign of life. -/
def lastHeartbeat? (x : Exchange) (session : Session) : Option Moment :=
  (x.connection? session).map Connection.lastHeartbeat

/-- Whether a shard takes one more task, and the connection of a session one more frame. -/
structure CanTake (x : Exchange) (session : Session) (shard : Nat) : Prop where
  work : ∃ s ∈ x.shard? shard, s.work.Accepts s.work.depth 1
  connection : ∃ c ∈ x.connection? session, c.session = session ∧ c.CanTake

instance (x : Exchange) (session : Session) (shard : Nat) : Decidable (x.CanTake session shard) :=
  decidable_of_iff ((∃ s ∈ x.shard? shard, s.work.Accepts s.work.depth 1) ∧
      ∃ c ∈ x.connection? session, c.session = session ∧ c.CanTake)
    ⟨fun h => ⟨h.1, h.2⟩, fun h => ⟨h.work, h.connection⟩⟩

/-- Some tasks and frames are queued, a sign of life is noted or not, and nothing else happens. -/
structure Does (session : Session) (shard : Nat) (tasks : List Task) (frames : List Bytes)
    (isSign : Bool) (x y : Exchange) : Prop where
  work : (y.traffic shard).work = (x.traffic shard).work ++ tasks
  frames : y.waiting session = x.waiting session ++ frames
  heartbeat : y.lastHeartbeat? session = if isSign then some x.now else x.lastHeartbeat? session
  rest : y.surroundings session shard = x.surroundings session shard

/-- One step of a reader. -/
structure Reading where
  before : Exchange
  after : Exchange

namespace Reading

/-- The tasks that came to a shard. -/
def tasks (r : Reading) (shard : Nat) : List Task :=
  (r.after.traffic shard).work.drop (r.before.traffic shard).work.length

/-- The frames that came to the connection of a session. -/
def frames (r : Reading) (session : Session) : List Bytes :=
  (r.after.waiting session).drop (r.before.waiting session).length

end Reading

variable {x y z : Exchange} {session : Session} {shard : Nat} {s : Socket} {c : Connection}
  {tasks tasks' : List Task} {frames frames' : List Bytes} {isSign isSign' : Bool}
  {item : Switchboard.Incoming} {items rest : List Switchboard.Incoming}

theorem desk?_eq (hs : x.socket? session = some s) (hc : x.connection? session = some c) :
    x.desk? session = some (.of s c) := by
  rw [desk?, hs, hc]

theorem of_desk? {d : Desk} (h : x.desk? session = some d) : ∃ s c,
    x.socket? session = some s ∧ x.connection? session = some c ∧ d = .of s c := by
  rw [desk?] at h
  split at h
  · next s c hs hc => exact ⟨s, c, hs, hc, (Option.some.inj h).symm⟩
  · cases h

/-! ## Step by step -/

theorem Does.refl (session : Session) (shard : Nat) (x : Exchange) :
    Does session shard [] [] false x x where
  work := (List.append_nil _).symm
  frames := (List.append_nil _).symm
  heartbeat := rfl
  rest := rfl

theorem Does.now (h : Does session shard tasks frames isSign x y) : y.now = x.now :=
  congrArg (fun w => w.rest.now) h.rest

theorem Does.trans (h : Does session shard tasks frames isSign x y)
    (h' : Does session shard tasks' frames' isSign' y z) :
    Does session shard (tasks ++ tasks') (frames ++ frames') (isSign || isSign') x z where
  work := by rw [h'.work, h.work, List.append_assoc]
  frames := by rw [h'.frames, h.frames, List.append_assoc]
  heartbeat := by
    rw [h'.heartbeat, h.heartbeat, h.now]
    -- of two signs of life the later counts, and the clock stood still
    cases isSign <;> cases isSign' <;> rfl
  rest := h'.rest.trans h.rest

/-- A change of what came over a socket, or of what it answers. -/
theorem does_mapSocket (hs : x.socket? session = some s) (hc : x.connection? session = some c)
    {f : Socket → Socket} (hf : (f s).still = s.still) (shard : Nat) :
    Does session shard [] [] false x (x.mapSocket session f) ∧
      (x.mapSocket session f).socket? session = some (f s) ∧
      (x.mapSocket session f).connection? session = some c := by
  have hget : x.pool.sockets.get? session = some s := hs
  have hget' : (x.pool.sockets.insert session (f s)).get? session = some (f s) :=
    (Table.get?_insert ..).trans (if_pos rfl)
  rw [mapSocket, hget]
  refine ⟨⟨(List.append_nil _).symm, (List.append_nil _).symm, rfl, Surroundings.ext ?_ ?_ rfl⟩,
    hget', hc⟩
  · exact congrArg (fun sockets => { (x.surroundings session shard).rest with
      pool.sockets := sockets }) (Table.erase_insert ..)
  · show ((x.pool.sockets.insert session (f s)).get? session).map Socket.still
      = (x.pool.sockets.get? session).map Socket.still
    rw [hget', hget, Option.map_some, Option.map_some, hf]

/-- A connection is put back with more frames, or with another heartbeat time. -/
theorem does_putConnection (c' : Connection) (hc : x.connection? session = some c)
    (hown : c.session = session) (hstill : c'.still = c.still)
    (hframes : c'.outbound.items = c.outbound.items ++ frames)
    (hbeat : c'.lastHeartbeat = if isSign then x.now else c.lastHeartbeat) (shard : Nat) :
    Does session shard [] frames isSign x (x.putConnection c') := by
  have hown' : c'.session = session := (congrArg Connection.session hstill).trans hown
  have hc' : (x.putConnection c').connection? session = some c' := by
    rw [connection?_putConnection, if_pos hown'.symm]
  refine ⟨(List.append_nil _).symm, ?_, ?_, Surroundings.ext ?_ rfl ?_⟩
  · rw [waiting, hc', waiting, hc]
    exact hframes
  · rw [lastHeartbeat?, hc', lastHeartbeat?, hc, Option.map_some, Option.map_some, hbeat]
    cases isSign <;> rfl
  · have herase : (x.connections.insert c'.session c').erase session
        = x.connections.erase session := by rw [hown', Table.erase_insert]
    exact congrArg (fun connections => { (x.surroundings session shard).rest with connections })
      herase
  · show ((x.putConnection c').connection? session).map _ = (x.connection? session).map _
    rw [hc', hc, Option.map_some, Option.map_some, hstill]

theorem does_submit (h : x.CanTake session shard) (task : Task) :
    Does session shard [task] [] false x (x.submit shard task).2 ∧
      (x.submit shard task).2.desk? session = x.desk? session := by
  obtain ⟨s, hs, haccepts⟩ := h.work
  have hs : x.shard? shard = some s := hs
  obtain ⟨work, hoffer, hitems, hclear⟩ := Queue.offer_of_accepts haccepts task
  have heq : (x.submit shard task).2 = x.mapShard shard fun s => { s with work } := by
    rw [submit, hs]
    simp only [hoffer]
  rw [heq]
  refine ⟨⟨?_, (List.append_nil _).symm, rfl, Surroundings.ext ?_ rfl rfl⟩, rfl⟩
  · rw [traffic_mapShard, if_pos rfl, hs, traffic, hs]
    exact hitems
  · -- clearing the queue makes up for what was put in it
    have hshards : (x.pool.shards.modify shard fun s => { s with work }).modify shard
          (fun s => { s with work := s.work.clear })
        = x.pool.shards.modify shard fun s => { s with work := s.work.clear } := by
      refine List.ext_getElem? fun id => ?_
      rw [List.getElem?_modify, List.getElem?_modify, List.getElem?_modify]
      by_cases hid : shard = id
      · have hs' : x.pool.shards[id]? = some s := hid ▸ hs
        simp [hid, hs', hclear]
      · simp [hid]
    exact congrArg (fun shards => { (x.surroundings session shard).rest with
      pool.shards := shards }) hshards

theorem touch_eq (hc : x.connection? session = some c) :
    x.touch session = x.putConnection (c.touch x.now) := by
  rw [touch, mapConnection, hc]

/-- The desk after a connection was put back. -/
theorem desk?_putConnection (c' : Connection) (hs : x.socket? session = some s)
    (hown : c'.session = session) :
    (x.putConnection c').desk? session = some (.of s c') := by
  refine desk?_eq hs ?_
  rw [connection?_putConnection, if_pos hown.symm]

theorem does_touch (hs : x.socket? session = some s) (hc : x.connection? session = some c)
    (hown : c.session = session) (shard : Nat) :
    Does session shard [] [] true x (x.touch session) ∧
      (x.touch session).desk? session = x.desk? session := by
  rw [touch_eq hc, desk?_eq hs hc]
  have hdoes : Does session shard [] [] true x (x.putConnection (c.touch x.now)) :=
    does_putConnection (c.touch x.now) hc hown rfl (List.append_nil _).symm rfl shard
  exact ⟨hdoes, desk?_putConnection _ hs hown⟩

theorem does_sendTo (hs : x.socket? session = some s) (hc : x.connection? session = some c)
    (hown : c.session = session) (hroom : c.CanTake) (shard : Nat) (frame : Bytes) :
    Does session shard [] [frame] false x (x.sendTo session frame).2 ∧
      (x.sendTo session frame).2.desk? session = x.desk? session := by
  obtain ⟨hopen, haccepts⟩ := hroom
  obtain ⟨outbound, hoffer, hitems, hclear⟩ := Queue.offer_of_accepts haccepts frame
  have heq : (x.sendTo session frame).2 = x.putConnection { c with outbound } := by
    rw [sendTo, hc]
    simp only [Connection.send, hopen, hoffer]
    rfl
  have hstill : ({ c with outbound } : Connection).still = c.still := by
    rw [Connection.still, Connection.still, hclear]
  rw [heq, desk?_eq hs hc]
  exact ⟨does_putConnection _ hc hown hstill hitems rfl shard, desk?_putConnection _ hs hown⟩

/-- A socket changes neither what waits at a shard nor a connection. -/
theorem CanTake.mapSocket (h : x.CanTake session shard) (τ : Session) (f : Socket → Socket) :
    (x.mapSocket τ f).CanTake session shard := by
  rw [Exchange.mapSocket]
  split
  · exact ⟨h.work, h.connection⟩
  · exact h

theorem does_stopReader (hs : x.socket? session = some s) (hc : x.connection? session = some c)
    (hown : c.session = session) (hshard : c.shard = some shard) :
    Does session shard [] [] false x (x.stopReader session) ∧
      (x.stopReader session).desk? session = some (.stopped shard) := by
  obtain ⟨hsocket, hs', hc'⟩ := does_mapSocket
    (f := fun s => { s with isReading := false, incoming := [] }) hs hc rfl shard
  have hcancel : Does session shard [] [] false _ _ :=
    does_putConnection c.cancel hc' hown rfl (List.append_nil _).symm rfl shard
  rw [stopReader, mapConnection, hc']
  refine ⟨hsocket.trans hcancel, (desk?_putConnection c.cancel hs' hown).trans ?_⟩
  exact congrArg some (Desk.ext rfl rfl rfl hshard)

/-- An envelope is answered or becomes a task. -/
theorem does_takeIn (hs : x.socket? session = some s) (hc : x.connection? session = some c)
    (hshard : c.shard = some shard) (hroom : x.CanTake session shard) (e : Envelope)
    (raw : Bytes) :
    Does session shard (if e.isHeartbeat then none else some (inbound e raw)).toList
        (if e.isHeartbeat then some (Envelope.pong x.timestamp).encode else none).toList
        e.isHeartbeat x (x.takeIn session e raw) ∧
      (x.takeIn session e raw).desk? session = x.desk? session := by
  obtain ⟨c₀, hc₀, hown, hopen⟩ := hroom.connection
  obtain rfl : c₀ = c := Option.some.inj (hc₀.symm.trans hc)
  cases hbeat : e.isHeartbeat with
  | true =>
      obtain ⟨htouch, hdesk⟩ := does_touch hs hc hown shard
      have hc' : (x.touch session).connection? session = some (c₀.touch x.now) := by
        rw [touch_eq hc, connection?_putConnection]
        exact if_pos hown.symm
      have hs' : (x.touch session).socket? session = some s := by rwa [touch_eq hc]
      obtain ⟨hsend, hdesk'⟩ :=
        does_sendTo hs' hc' hown hopen shard (Envelope.pong x.timestamp).encode
      rw [takeIn, if_pos hbeat]
      exact ⟨htouch.trans hsend, hdesk'.trans hdesk⟩
  | false =>
      have htask : x.takeIn session e raw = (x.submit shard (inbound e raw)).2 := by
        rw [takeIn, hbeat, if_neg Bool.false_ne_true, hc]
        obtain ⟨⟩ := c₀
        cases hshard
        rfl
      rw [htask]
      exact does_submit hroom _

theorem readItem_of_envelope? {e : Envelope} {raw : Bytes} (h : item.envelope? = some (e, raw))
    (x : Exchange) (session : Session) : x.readItem session item = x.takeIn session e raw := by
  rcases Incoming.cases_of_envelope? h with ⟨frame, rfl⟩ | ⟨frame, rfl⟩
  · rw [Incoming.envelope?] at h
    split at h
    · next e' hdecode =>
        cases h
        rw [readItem, hdecode]
    · cases h
  · rw [Incoming.envelope?] at h
    split at h
    · next e' hdecode =>
        cases h
        rw [readItem, hdecode]
    · cases h

/-- What cannot be read is passed over. -/
theorem readItem_of_none (h : item.envelope? = none) (hsign : item.isSign = false)
    (hlast : item.isLast = false) (x : Exchange) (session : Session) :
    x.readItem session item = x := by
  cases item with
  | binary frame =>
      rw [Incoming.envelope?] at h
      split at h
      · cases h
      · next fault hdecode => rw [readItem, hdecode]
  | text frame =>
      rw [Incoming.envelope?] at h
      split at h
      · cases h
      · next fault hdecode => rw [readItem, hdecode]
  | ping length => cases hsign
  | pong => cases hsign
  | close => cases hlast
  | failure => cases hlast
  | ended => cases hlast

/-- **What becomes of an item.** -/
theorem does_readItem (hs : x.socket? session = some s) (hc : x.connection? session = some c)
    (hshard : c.shard = some shard) (hroom : x.CanTake session shard)
    (item : Switchboard.Incoming) :
    Does session shard item.task?.toList (item.pong? x.timestamp).toList item.isSign x
        (x.readItem session item) ∧
      (x.readItem session item).desk? session
        = if item.isLast then some (.stopped shard) else x.desk? session := by
  obtain ⟨c₀, hc₀, hown, -⟩ := hroom.connection
  obtain rfl : c₀ = c := Option.some.inj (hc₀.symm.trans hc)
  cases henvelope : item.envelope? with
  | some envelope =>
      obtain ⟨e, raw⟩ := envelope
      rw [readItem_of_envelope? henvelope, Incoming.task?_of_envelope? henvelope,
        Incoming.pong?_of_envelope? henvelope, Incoming.isSign_of_envelope? henvelope,
        Incoming.isLast_of_envelope? henvelope]
      exact does_takeIn hs hc hshard hroom e raw
  | none =>
      rw [Incoming.task?_of_none henvelope, Incoming.pong?_of_none henvelope]
      cases item with
      | ping length => exact does_touch hs hc hown shard
      | pong => exact does_touch hs hc hown shard
      | close => exact does_stopReader hs hc hown hshard
      | failure => exact does_stopReader hs hc hown hshard
      | ended => exact does_stopReader hs hc hown hshard
      | binary frame =>
          have hsign : (Switchboard.Incoming.binary frame).isSign = false :=
            Incoming.isHeartbeat_of_none henvelope
          rw [readItem_of_none henvelope hsign rfl, hsign]
          exact ⟨.refl session shard x, rfl⟩
      | text frame =>
          have hsign : (Switchboard.Incoming.text frame).isSign = false :=
            Incoming.isHeartbeat_of_none henvelope
          rw [readItem_of_none henvelope hsign rfl, hsign]
          exact ⟨.refl session shard x, rfl⟩

/-- **One step of a reader** takes the first item and does what the item asks for. -/
theorem does_read (hdesk : x.desk? session = some (.reading (item :: rest) shard))
    (hroom : x.CanTake session shard) :
    Does session shard item.task?.toList (item.pong? x.timestamp).toList item.isSign x
        (x.read session) ∧
      (x.read session).desk? session = some (.turn item rest shard) := by
  obtain ⟨s, c, hs, hc, heq⟩ := of_desk? hdesk
  obtain ⟨hreading, hitems, hcancelled, hshard⟩ := Desk.mk.inj heq
  obtain ⟨raw, behind, hincoming, hraw, hbehind⟩ := List.map_eq_cons_iff.1 hitems.symm
  -- what the socket answers by itself is no frame of the connection
  obtain ⟨hpassed, hs', hc'⟩ := does_mapSocket (f := fun s =>
    { s with incoming := behind, outgoing := s.outgoing ++ s.wire.answer raw }) hs hc rfl shard
  have hreads : x.read session = readItem (x.mapSocket session fun s =>
      { s with incoming := behind, outgoing := s.outgoing ++ s.wire.answer raw }) session item := by
    rw [read, hs, hc]
    simp only [← hreading, ← hcancelled, hincoming, ← hraw]
    rfl
  obtain ⟨hitem, hturn⟩ :=
    does_readItem hs' hc' hshard.symm (hroom.mapSocket session _) item
  have hstamp : timestamp _ = x.timestamp := congrArg Int64.ofNat hpassed.now
  have hafter := desk?_eq hs' hc'
  rw [hreads]
  rw [hstamp] at hitem
  refine ⟨hpassed.trans hitem, hturn.trans ?_⟩
  rw [hafter, Desk.turn]
  cases item.isLast with
  | true => rfl
  | false => exact congrArg some (Desk.ext hreading.symm hbehind hcancelled.symm hshard.symm)

/-- A reader that is done does nothing any more. -/
theorem read_of_stopped (hdesk : x.desk? session = some (.stopped shard)) :
    x.read session = x := by
  obtain ⟨s, c, hs, hc, heq⟩ := of_desk? hdesk
  have hreading : s.isReading = false := (congrArg Desk.isReading heq).symm
  rw [read, hs, hc]
  simp only [hreading, Bool.not_false, if_true]

/-- A reader at work that finds nothing waits. -/
theorem read_of_nil (hdesk : x.desk? session = some (.reading [] shard)) :
    x.read session = x := by
  obtain ⟨s, c, hs, hc, heq⟩ := of_desk? hdesk
  obtain ⟨hreading, hitems, hcancelled, -⟩ := Desk.mk.inj heq
  rw [read, hs, hc]
  simp only [← hreading, ← hcancelled, List.map_eq_nil_iff.1 hitems.symm, Bool.not_true,
    Bool.false_eq_true, if_false]

/-! ## A shift -/

/-- Something happens beside the reader of a session: some items may come over its socket unless the
reader is done, and its connection is not cancelled. -/
structure Beside (session : Session) (sent : List Switchboard.Incoming) (x y : Exchange) :
    Prop where
  desk : y.desk? session = (x.desk? session).map fun d => { d with items := d.items ++ sent }
  taken : sent = [] ∨ (x.desk? session).all Desk.isReading

/-- A stretch of time in the life of a reader: the items that came over its socket meanwhile, and the
steps in which it read one. A reader that finds nothing to read takes no step. -/
inductive Shift (session : Session) :
    Exchange → List Switchboard.Incoming → List Reading → Exchange → Prop
  | rest (x : Exchange) : Shift session x [] [] x
  | read {x y : Exchange} {sent : List Switchboard.Incoming} {log : List Reading}
      (waits : ∃ d ∈ x.desk? session, d.items ≠ [])
      (later : Shift session (x.read session) sent log y) :
      Shift session x sent (⟨x, x.read session⟩ :: log) y
  | beside {x y z : Exchange} {new sent : List Switchboard.Incoming} {log : List Reading}
      (beside : Beside session new x y) (later : Shift session y sent log z) :
      Shift session x (new ++ sent) log z

/-- What a reader has done by the end of a shift, with all the items that lay before it or came. If it
is done, it has read one item more than there are before the first that stops it, so that all of those
count. -/
structure Attended (session : Session) (shard : Nat) (items : List Switchboard.Incoming)
    (log : List Reading) (y : Exchange) : Prop where
  /-- Each step does what its item asks for, and nothing else. -/
  each : List.Forall₂ (fun item r => Does session shard item.task?.toList
    (item.pong? r.before.timestamp).toList item.isSign r.before r.after) (items.take log.length) log
  /-- Every item that asks for a task has it queued, once and in its turn. -/
  tasks : log.flatMap (Reading.tasks · shard)
    = ((Incoming.beforeLast items).take log.length).filterMap Incoming.task?
  /-- Every heartbeat has its answer, with the time at which it was read. -/
  frames : log.flatMap (Reading.frames · session) = ((Incoming.beforeLast items).zip log).filterMap
    fun (item, r) => item.pong? r.before.timestamp
  /-- The reader is at work until it has read an item that stops it. -/
  desk : y.desk? session = some (if log.length ≤ (Incoming.beforeLast items).length
    then .reading (items.drop log.length) shard else .stopped shard)
  length_le : log.length ≤ (Incoming.beforeLast items).length + 1

section Shift

variable {sent : List Switchboard.Incoming} {log : List Reading} {r : Reading}

theorem Does.tasks_eq (h : Does session shard tasks frames isSign x y) :
    Reading.tasks ⟨x, y⟩ shard = tasks := by
  rw [Reading.tasks, h.work, List.drop_left]

theorem Does.frames_eq (h : Does session shard tasks frames isSign x y) :
    Reading.frames ⟨x, y⟩ session = frames := by
  rw [Reading.frames, h.frames, List.drop_left]

theorem attended_nil (hdesk : x.desk? session = some (.reading items shard)) :
    Attended session shard items [] x where
  each := .nil
  tasks := rfl
  frames := by rw [List.zip_nil_right]; rfl
  desk := hdesk
  length_le := Nat.zero_le _

/-- The reader has read an item that does not stop it, and goes on. -/
theorem Attended.cons (hlast : item.isLast = false)
    (hdoes : Does session shard item.task?.toList (item.pong? r.before.timestamp).toList item.isSign
      r.before r.after) (h : Attended session shard items log y) :
    Attended session shard (item :: items) (r :: log) y := by
  have hbefore : Incoming.beforeLast (item :: items) = item :: Incoming.beforeLast items := by
    rw [Incoming.beforeLast, List.takeWhile_cons_of_pos (by rw [hlast]; rfl)]
    rfl
  refine ⟨.cons hdoes h.each, ?_, ?_, ?_, ?_⟩
  · rw [List.flatMap_cons, hdoes.tasks_eq, h.tasks, hbefore, List.length_cons,
      List.take_succ_cons]
    cases htask : item.task? with
    | none =>
        rw [List.filterMap_cons_none htask]
        rfl
    | some task =>
        rw [List.filterMap_cons_some htask]
        rfl
  · rw [List.flatMap_cons, hdoes.frames_eq, h.frames, hbefore, List.zip_cons_cons]
    cases hpong : item.pong? r.before.timestamp with
    | none =>
        simp only [List.filterMap_cons, hpong]
        rfl
    | some frame =>
        simp only [List.filterMap_cons, hpong]
        rfl
  · rw [h.desk, hbefore]
    simp only [List.length_cons, Nat.add_le_add_iff_right, List.drop_succ_cons]
  · rw [hbefore]
    exact Nat.succ_le_succ h.length_le

/-- The reader has read an item that stops it. -/
theorem attended_of_last (hlast : item.isLast = true)
    (hdoes : Does session shard item.task?.toList (item.pong? r.before.timestamp).toList item.isSign
      r.before r.after) (hdesk : y.desk? session = some (.stopped shard))
    (items : List Switchboard.Incoming) : Attended session shard (item :: items) [r] y := by
  have hbefore : Incoming.beforeLast (item :: items) = [] := by
    rw [Incoming.beforeLast, List.takeWhile_cons_of_neg (by rw [hlast]; simp)]
  -- what stops a reader is no frame, so it asks for nothing
  have henvelope : item.envelope? = none := by
    cases henvelope : item.envelope? with
    | none => rfl
    | some envelope =>
        rw [Incoming.isLast_of_envelope? henvelope] at hlast
        cases hlast
  refine ⟨.cons hdoes .nil, ?_, ?_, ?_, ?_⟩
  · rw [List.flatMap_singleton, hdoes.tasks_eq, hbefore, Incoming.task?_of_none henvelope]
    rfl
  · rw [List.flatMap_singleton, hdoes.frames_eq, hbefore, Incoming.pong?_of_none henvelope]
    rfl
  · rw [hbefore]
    exact hdesk
  · rw [hbefore]
    exact Nat.le_refl 1

/-- A reader that is done reads nothing more. -/
theorem Shift.of_stopped (h : Shift session x sent log y)
    (hdesk : x.desk? session = some (.stopped shard)) :
    log = [] ∧ y.desk? session = some (.stopped shard) := by
  induction h with
  | rest x => exact ⟨rfl, hdesk⟩
  | read waits later ih =>
      obtain ⟨d, hd, hwaits⟩ := waits
      obtain rfl := Option.some.inj (hd.symm.trans hdesk)
      exact absurd rfl hwaits
  | beside beside later ih =>
      refine ih (beside.desk.trans ?_)
      -- a reader that is done is not brought anything
      rcases beside.taken with rfl | hreading
      · rw [hdesk]
        rfl
      · rw [hdesk] at hreading
        cases hreading

/-- By induction on the shift: an item that stops the reader is the only one of its shift, and any
other comes in front of those of a later one. -/
theorem attended_shift (hdesk : x.desk? session = some (.reading items shard))
    (h : Shift session x sent log y) (hroom : ∀ r ∈ log, r.before.CanTake session shard) :
    Attended session shard (items ++ sent) log y := by
  induction h generalizing items with
  | rest x =>
      rw [List.append_nil]
      exact attended_nil hdesk
  | @read x y sent log waits later ih =>
      obtain ⟨d, hd, hwaits⟩ := waits
      obtain rfl := Option.some.inj (hd.symm.trans hdesk)
      obtain ⟨item, rest, rfl⟩ := List.exists_cons_of_ne_nil hwaits
      obtain ⟨hhere, hlater⟩ := List.forall_mem_cons.1 hroom
      obtain ⟨hdoes, hafter⟩ := does_read hdesk hhere
      cases hlast : item.isLast with
      | true =>
          rw [Desk.turn, if_pos hlast] at hafter
          -- nothing is read after it
          obtain ⟨rfl, hdone⟩ := later.of_stopped hafter
          exact attended_of_last (r := ⟨x, x.read session⟩) hlast hdoes hdone _
      | false =>
          rw [Desk.turn, if_neg (by rw [hlast]; exact Bool.false_ne_true)] at hafter
          exact (ih hafter hlater).cons (r := ⟨x, x.read session⟩) hlast hdoes
  | @beside x y z new sent log beside later ih =>
      rw [← List.append_assoc]
      exact ih (beside.desk.trans (by rw [hdesk]; rfl)) hroom

/-- **A reader handles the items before the first that stops it, and only them**, whatever else
happens meanwhile: they are read one by one in their order, the tasks and the frames that it queues
are those that they ask for, and having read the one that stops it, it has cancelled the connection.
With nothing left before it, be it done or not, it changes nothing. -/
theorem attended_of_shift (hdesk : x.desk? session = some (.reading items shard))
    (h : Shift session x sent log y) (hroom : ∀ r ∈ log, r.before.CanTake session shard) :
    Attended session shard (items ++ sent) log y ∧
      ∀ d ∈ y.desk? session, d.items = [] → y.read session = y := by
  have hattended := attended_shift hdesk h hroom
  refine ⟨hattended, fun d hd hempty => ?_⟩
  have hafter := hattended.desk
  split at hafter
  · obtain rfl := Option.some.inj (hafter.symm.trans hd)
    exact read_of_nil (hafter.trans (congrArg (fun items => some (Desk.reading items shard)) hempty))
  · exact read_of_stopped hafter

end Shift

/-- Ann's client gives a sign of life, sends something that cannot be read, and pings. -/
def lively : Exchange := (wired.clientSends 0 [.binary (Envelope.heartbeat "ann" 1).encode,
  .text "hello", .ping 4]).2

/-- What comes later: Ann's message, a sign of life in text form, her goodbye, and the message once
more. -/
def farewell : List Switchboard.Incoming :=
  [.binary hello.encode, .text "\x7b\"type\":\"heartbeat\"\x7d", .close, .binary hello.encode]

/-- After a while the sign of life was read and answered, and more comes. -/
def leaving : Exchange :=
  (((((lively.wait 1000).read 0).read 0).write 0).clientSends 0 farewell).2

/-- The ping and the message were read, and a processor has the message in hand. -/
def busy : Exchange := (((leaving.read 0).read 0).take 0).wait 500

theorem attended_of_shift_busy :
    ∃ log, Shift 0 lively farewell log ((busy.read 0).read 0) ∧
      log.flatMap (Reading.tasks · 0) = [inbound hello hello.encode] ∧
      log.flatMap (Reading.frames · 0)
        = [(Envelope.pong 1000).encode, (Envelope.pong 1500).encode] ∧
      ((busy.read 0).read 0).desk? 0 = some (.stopped 0) ∧
      ((busy.read 0).read 0).read 0 = (busy.read 0).read 0 := by
  have hdone : Shift 0 busy [] [⟨busy, busy.read 0⟩, ⟨busy.read 0, (busy.read 0).read 0⟩]
      ((busy.read 0).read 0) :=
    .read (by decide +kernel) (.read (by decide +kernel) (.rest _))
  have hleaving : Shift 0 leaving [] _ ((busy.read 0).read 0) :=
    .read (by decide +kernel) (.read (by decide +kernel)
      (.beside ⟨by decide +kernel, .inl rfl⟩ hdone))
  have hsends : Beside 0 farewell ((((lively.wait 1000).read 0).read 0).write 0) leaving :=
    ⟨by decide +kernel, .inr (by decide +kernel)⟩
  have hshift : Shift 0 (lively.wait 1000) farewell _ ((busy.read 0).read 0) :=
    .read (by decide +kernel) (.read (by decide +kernel)
      (.beside ⟨by decide +kernel, .inl rfl⟩ (.beside hsends hleaving)))
  have hwaits : Beside 0 [] lively (lively.wait 1000) := ⟨by decide +kernel, .inl rfl⟩
  have hall : Shift 0 lively farewell _ ((busy.read 0).read 0) := .beside hwaits hshift
  have hdesk : lively.desk? 0 = some (.reading [.binary (Envelope.heartbeat "ann" 1).encode,
      .text "hello", .ping 4] 0) := by decide +kernel
  obtain ⟨hattended, hidle⟩ := attended_of_shift hdesk hall (by decide +kernel)
  have hstopped : ((busy.read 0).read 0).desk? 0 = some (.stopped 0) :=
    hattended.desk.trans (by decide +kernel)
  exact ⟨_, hall, hattended.tasks.trans (by decide +kernel),
    hattended.frames.trans (by decide +kernel), hstopped, hidle _ hstopped rfl⟩

end Exchange

end Switchboard
