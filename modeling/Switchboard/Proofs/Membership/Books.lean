import Switchboard.Proofs.Membership.Turnstile
import Switchboard.Proofs.Table

/-!
# The books of an exchange

Every connection that counts for the load of a shard is a `Charge`. `Books` is what the loads and the
connections of an exchange say, and they balance with a list of charges when every shard's load is
the number of charges there, no connection is charged twice, and whoever is charged as open is open.

A step of a call (`Call.Steps`) moves charges between the registries and the call, closes a
connection that it answers for, or strikes one off the list together with one unit of load. That is
all that a step does to the books (`steps_perform`), whatever else is charged to other calls.
-/

namespace Switchboard

/-! ## Books -/

namespace Turnstile

/-- What loads and connections say. -/
@[ext] structure Books where
  /-- The number and the load of each shard, in their order. -/
  loads : List (Nat × Nat)
  /-- The session that a connection is kept with, and whether it was closed. -/
  account : Session → Option (Session × Bool)
  nextSession : Session

namespace Books

def release (b : Books) (shard : Nat) : Books :=
  { b with loads := b.loads.modify shard fun e => (e.1, e.2 - 1) }

def charge (b : Books) (shard : Nat) : Books :=
  { b with loads := b.loads.modify shard fun e => (e.1, e.2 + 1) }

def grow (b : Books) : Books := { b with loads := b.loads ++ [(b.loads.length, 0)] }

def shut (b : Books) (session : Session) : Books :=
  { b with account := fun σ => if σ = session then some (session, true) else b.account σ }

/-- A connection is opened. -/
def opened (b : Books) : Books :=
  { b with
    account := fun σ => if σ = b.nextSession then some (b.nextSession, false) else b.account σ
    nextSession := b.nextSession + 1 }

/-- Loads and connections account for a list of charges, and for no others. -/
structure Balances (b : Books) (charges : List Charge) : Prop where
  /-- No connection is charged twice. -/
  nodup : (charges.map Charge.session).Nodup
  /-- Connections are charged to shards that exist. -/
  lodged : ∀ l ∈ charges, l.shard < b.loads.length
  account : ∀ l ∈ charges, b.account l.session = some (l.session, l.isClosed)
  /-- A shard's load is the number of charges there. -/
  load : ∀ n e, b.loads[n]? = some e → e = (n, charges.countP fun l => decide (l.shard = n))

namespace Balances

variable {b : Books} {charges charges' : List Charge} {l : Charge}

theorem perm (h : b.Balances charges) (hperm : charges.Perm charges') : b.Balances charges' where
  nodup := (hperm.map Charge.session).nodup_iff.1 h.nodup
  lodged := fun l hl => h.lodged l (hperm.mem_iff.2 hl)
  account := fun l hl => h.account l (hperm.mem_iff.2 hl)
  load := fun n e he => hperm.countP_eq (fun l => decide (l.shard = n)) ▸ h.load n e he

theorem ne_of_mem (h : b.Balances (l :: charges)) {l' : Charge} (hl' : l' ∈ charges) :
    l'.session ≠ l.session := by
  have hnodup := (List.nodup_cons.1 h.nodup).1
  exact fun heq => hnodup (heq ▸ List.mem_map_of_mem hl')

theorem grow (h : b.Balances charges) : b.grow.Balances charges where
  nodup := h.nodup
  lodged := fun l hl => by
    have hlt := h.lodged l hl
    rw [Books.grow, List.length_append]
    omega
  account := h.account
  load := by
    intro n e he
    rw [Books.grow, List.getElem?_append] at he
    split at he
    · exact h.load n e he
    · next hlt =>
        -- nobody is charged at a shard that did not exist
        have hnobody : charges.countP (fun l => decide (l.shard = n)) = 0 := by
          refine List.countP_eq_zero.2 fun l hl => ?_
          have := h.lodged l hl
          simp only [decide_eq_true_eq]
          omega
        have hn : n - b.loads.length = 0 := by
          have := (List.getElem?_eq_some_iff.1 he).1
          rw [List.length_singleton] at this
          omega
        rw [hn] at he
        obtain rfl := Option.some.inj he
        rw [hnobody, show n = b.loads.length by omega]

theorem shut (h : b.Balances (l :: charges)) :
    (b.shut l.session).Balances ({ l with isClosed := true } :: charges) where
  nodup := h.nodup
  lodged := fun l' hl' => by
    rcases List.mem_cons.1 hl' with rfl | hl'
    · exact h.lodged l (List.mem_cons_self ..)
    · exact h.lodged l' (List.mem_cons_of_mem _ hl')
  account := fun l' hl' => by
    rcases List.mem_cons.1 hl' with rfl | hl'
    · exact if_pos rfl
    · exact (if_neg (h.ne_of_mem hl')).trans (h.account l' (List.mem_cons_of_mem _ hl'))
  load := fun n e he => by
    rw [List.countP_cons]
    exact (h.load n e he).trans (by rw [List.countP_cons])

/-- One that is charged can be taken off the load. -/
theorem pos (h : b.Balances (l :: charges)) : ∃ e, b.loads[l.shard]? = some e ∧ 0 < e.2 := by
  have hlt := h.lodged l (List.mem_cons_self ..)
  refine ⟨_, List.getElem?_eq_getElem hlt, ?_⟩
  rw [h.load l.shard _ (List.getElem?_eq_getElem hlt)]
  exact List.countP_pos_iff.2 ⟨l, List.mem_cons_self .., decide_eq_true rfl⟩

theorem release (h : b.Balances (l :: charges)) : (b.release l.shard).Balances charges where
  nodup := (List.nodup_cons.1 h.nodup).2
  lodged := fun l' hl' => by
    rw [Books.release, List.length_modify]
    exact h.lodged l' (List.mem_cons_of_mem _ hl')
  account := fun l' hl' => h.account l' (List.mem_cons_of_mem _ hl')
  load := by
    intro n e he
    rw [Books.release, List.getElem?_modify] at he
    obtain ⟨e', he', rfl⟩ := Option.map_eq_some_iff.1 he
    rw [h.load n e' he', List.countP_cons]
    by_cases hn : l.shard = n
    · simp [hn]
    · simp [hn]

theorem seat {shard : Nat} (h : b.Balances charges) (hshard : shard < b.loads.length)
    (hfresh : ∀ l ∈ charges, l.session ≠ b.nextSession) :
    (b.charge shard).opened.Balances (Charge.new shard b.nextSession :: charges) where
  nodup := by
    refine List.nodup_cons.2 ⟨fun hmem => ?_, h.nodup⟩
    obtain ⟨l, hl, heq⟩ := List.mem_map.1 hmem
    exact hfresh l hl heq
  lodged := fun l hl => by
    show l.shard < (b.loads.modify shard _).length
    rw [List.length_modify]
    rcases List.mem_cons.1 hl with rfl | hl
    · exact hshard
    · exact h.lodged l hl
  account := fun l hl => by
    rcases List.mem_cons.1 hl with rfl | hl
    · exact if_pos rfl
    · exact (if_neg (hfresh l hl)).trans (h.account l hl)
  load := by
    intro n e he
    have he : (b.loads.modify shard fun e => (e.1, e.2 + 1))[n]? = some e := he
    rw [List.getElem?_modify] at he
    obtain ⟨e', he', rfl⟩ := Option.map_eq_some_iff.1 he
    rw [h.load n e' he', List.countP_cons]
    by_cases hn : shard = n
    · simp [hn]
    · simp [hn]

end Balances

end Books

end Turnstile

open Turnstile

/-! ## The books of an exchange -/

/-- The charges of the connections that a registry of a shard holds. -/
def Registry.charges (r : Registry) (shard : Nat) : List Charge := r.values.map (.new shard)

def Shard.charges (s : Shard) : List Charge := s.registry.charges s.id

namespace Registry

variable {r : Registry} {identity : String} {session : Session}

/-- A registry that an identity was taken from held whoever had it, and the same as now. -/
theorem charges_erase (h : r.get? identity = some session) (shard : Nat) :
    (r.charges shard).Perm
      (.new shard session :: Registry.charges (r.erase identity) shard) :=
  (Table.perm_values_of_get? h).map (Charge.new shard)

/-- A registry that gave an identity to a session holds it, and whoever has another identity. -/
theorem charges_hold (r : Registry) (identity : String) (session : Session) (shard : Nat) :
    ((r.hold identity session).2.charges shard).Perm
      (.new shard session :: Registry.charges (r.erase identity) shard) := by
  simp only [charges, hold, Table.values, Table.insert, Table.erase, List.map_append]
  exact List.perm_append_singleton ..

/-- Whoever gets an identity is held in place of whoever had it. -/
theorem charges_hold_perm (r : Registry) (identity : String) (session : Session) (shard : Nat) :
    ((r.hold identity session).2.charges shard
        ++ (r.get? identity).toList.map (Charge.new shard)).Perm
      (r.charges shard ++ [.new shard session]) := by
  have hhold := charges_hold r identity session shard
  cases hstale : r.get? identity with
  | none =>
      -- nobody had the identity, so nobody is missing without it
      have hsame : Registry.charges (r.erase identity) shard = r.charges shard :=
        congrArg (charges · shard) (Table.erase_of_get?_eq_none hstale)
      rw [hsame] at hhold
      simpa using hhold.trans (List.perm_append_singleton ..).symm
  | some stale =>
      have herase := charges_erase hstale shard
      refine (hhold.append_right _).trans (.trans ?_ (herase.append_right _).symm)
      exact (List.perm_append_singleton ..).trans
        (.trans (.swap ..) (List.perm_append_singleton ..).symm)

end Registry

namespace Exchange

def books (x : Exchange) : Books where
  loads := x.pool.shards.map fun s => (s.id, s.load)
  account session := (x.connection? session).map fun c => (c.session, c.isClosed)
  nextSession := x.nextSession

/-- The charges of the connections that are held somewhere. -/
def held (x : Exchange) : List Charge := x.pool.shards.flatMap Shard.charges

variable {x y : Exchange} {shard : Nat} {session : Session} {charges : List Charge} {s : Shard}

theorem loads_of_shard? (h : x.shard? shard = some s) :
    x.books.loads[shard]? = some (s.id, s.load) := by
  show (x.pool.shards.map _)[shard]? = _
  rw [List.getElem?_map]
  exact congrArg (Option.map fun s : Shard => (s.id, s.load)) h

theorem exists_shard?_of_lt (h : shard < x.books.loads.length) : ∃ s, x.shard? shard = some s := by
  rw [books, List.length_map] at h
  exact ⟨_, List.getElem?_eq_getElem h⟩

theorem id_of_shard? (hx : x.books.Balances charges) (h : x.shard? shard = some s) :
    s.id = shard :=
  congrArg Prod.fst (hx.load shard _ (loads_of_shard? h))

/-- Changing a shard changes its entry in the books. -/
theorem books_mapShard {f : Shard → Shard} {g : Nat × Nat → Nat × Nat}
    (h : ∀ s, ((f s).id, (f s).load) = g (s.id, s.load)) (x : Exchange) (id : Nat) :
    (x.mapShard id f).books = { x.books with loads := x.books.loads.modify id g } := by
  refine Books.ext (List.ext_getElem? fun n => ?_) rfl rfl
  show ((x.pool.shards.modify id f).map _)[n]? = ((x.pool.shards.map _).modify id g)[n]?
  rw [List.getElem?_map, List.getElem?_modify, List.getElem?_modify, List.getElem?_map]
  cases x.pool.shards[n]? with
  | none => rfl
  | some s =>
      by_cases hid : id = n
      · simp [hid, h]
      · simp [hid]

theorem books_mapShard_of_same {f : Shard → Shard} (h : ∀ s, (f s).id = s.id ∧ (f s).load = s.load)
    (x : Exchange) (id : Nat) : (x.mapShard id f).books = x.books := by
  rw [books_mapShard (g := fun e => e) (fun s => Prod.ext (h s).1 (h s).2)]
  exact congrArg (fun loads => ({ x.books with loads } : Books)) (List.modify_id id _)

theorem held_mapShard_of_same {f : Shard → Shard} (h : ∀ s, (f s).charges = s.charges)
    (x : Exchange) (id : Nat) : (x.mapShard id f).held = x.held := by
  show (x.pool.shards.modify id f).flatMap Shard.charges = x.pool.shards.flatMap Shard.charges
  rw [List.flatMap_def, List.flatMap_def]
  congr 1
  refine List.ext_getElem? fun n => ?_
  rw [List.getElem?_map, List.getElem?_map, List.getElem?_modify]
  cases x.pool.shards[n]? with
  | none => rfl
  | some s =>
      by_cases hid : id = n
      · simp [hid, h]
      · simp [hid]

/-- What is held is what a shard holds, between what the shards before it and after it hold. -/
theorem held_split (hs : x.shard? shard = some s) :
    x.held = (x.pool.shards.take shard).flatMap Shard.charges
      ++ (s.charges ++ (x.pool.shards.drop (shard + 1)).flatMap Shard.charges) := by
  obtain ⟨hlt, heq⟩ := List.getElem?_eq_some_iff.1 hs
  rw [← heq, ← List.flatMap_cons, ← List.drop_eq_getElem_cons hlt, ← List.flatMap_append,
    List.take_append_drop]
  rfl

theorem held_mapShard_split (hs : x.shard? shard = some s) (f : Shard → Shard) :
    (x.mapShard shard f).held = (x.pool.shards.take shard).flatMap Shard.charges
      ++ ((f s).charges ++ (x.pool.shards.drop (shard + 1)).flatMap Shard.charges) := by
  obtain ⟨hlt, heq⟩ := List.getElem?_eq_some_iff.1 hs
  rw [← heq, ← List.flatMap_cons, ← List.flatMap_append, ← List.modify_eq_take_cons_drop hlt]
  rfl

/-- What a registry holds more or less after a change, all of them hold more or less. -/
theorem held_setRegistry_perm {f : Shard → Shard} {r : Registry} {more less : List Charge}
    (hx : x.books.Balances charges) (hs : x.shard? shard = some s)
    (hf : (f s).charges = r.charges s.id)
    (hperm : (r.charges shard ++ less).Perm (s.registry.charges shard ++ more)) :
    ((x.mapShard shard f).held ++ less).Perm (x.held ++ more) := by
  have hid := id_of_shard? hx hs
  -- the other shards hold the same before and after, so it is a matter of counting
  rw [held_mapShard_split hs, held_split hs, hf, Shard.charges, hid, List.perm_iff_count]
  intro l
  have hcount := hperm.count_eq l
  simp only [List.count_append] at hcount ⊢
  omega

/-- The connections that are held at a shard are those in its registry. -/
theorem countP_held (hx : x.books.Balances charges) (hs : x.shard? shard = some s) :
    x.held.countP (fun l => decide (l.shard = shard)) = s.registry.size := by
  -- no other shard has a charge for this one, since each charges to its own number
  have hothers : ∀ n t, n ≠ shard → x.shard? n = some t →
      t.charges.countP (fun l => decide (l.shard = shard)) = 0 := by
    intro n t hn ht
    refine List.countP_eq_zero.2 fun l hl => ?_
    obtain ⟨σ, -, rfl⟩ := List.mem_map.1 hl
    simpa [id_of_shard? hx ht] using hn
  have hbefore : ((x.pool.shards.take shard).flatMap Shard.charges).countP
      (fun l => decide (l.shard = shard)) = 0 := by
    refine List.countP_eq_zero.2 fun l hl => ?_
    obtain ⟨t, ht, hlt⟩ := List.mem_flatMap.1 hl
    obtain ⟨n, hn⟩ := List.getElem?_of_mem ht
    obtain ⟨hlt', heq⟩ := List.getElem?_eq_some_iff.1 hn
    rw [List.length_take] at hlt'
    rw [List.getElem?_take_of_lt (by omega)] at hn
    exact List.countP_eq_zero.1 (hothers n t (by omega) hn) l hlt
  have hafter : ((x.pool.shards.drop (shard + 1)).flatMap Shard.charges).countP
      (fun l => decide (l.shard = shard)) = 0 := by
    refine List.countP_eq_zero.2 fun l hl => ?_
    obtain ⟨t, ht, hlt⟩ := List.mem_flatMap.1 hl
    obtain ⟨n, hn⟩ := List.getElem?_of_mem ht
    rw [List.getElem?_drop] at hn
    exact List.countP_eq_zero.1 (hothers (shard + 1 + n) t (by omega) hn) l hlt
  have hhere : s.charges.countP (fun l => decide (l.shard = shard)) = s.registry.size := by
    rw [Shard.charges, Registry.charges, List.countP_map, id_of_shard? hx hs,
      List.countP_eq_length.2 (by simp)]
    exact List.length_map ..
  rw [held_split hs, List.countP_append, List.countP_append, hbefore, hafter, hhere]
  omega

/-! ## The steps -/

theorem books_openConnection (x : Exchange) (identity : String)
    (remoteAddress : Option SocketAddress) (capacity : Nat) :
    (x.openConnection identity remoteAddress capacity).2.books = x.books.opened := by
  refine Books.ext rfl (funext fun σ => ?_) rfl
  show ((x.putConnection (.new identity x.nextSession remoteAddress capacity x.now)).connection?
    σ).map _ = if σ = x.nextSession then _ else (x.connection? σ).map _
  rw [connection?_putConnection]
  show Option.map _ (if σ = x.nextSession then _ else x.connection? σ) = _
  by_cases h : σ = x.nextSession
  · simp only [if_pos h, Option.map_some]
    rfl
  · simp only [if_neg h]

theorem books_grow (x : Exchange) : x.grow.books = x.books.grow := by
  refine Books.ext ?_ rfl rfl
  rw [grow, books, Books.grow, books, List.length_map]
  refine (List.map_append ..).trans (congrArg (_ ++ ·) ?_)
  split <;> rfl

theorem held_grow (x : Exchange) : x.grow.held = x.held := by
  obtain ⟨s, hregistry, -, heq⟩ := grow_eq x
  rw [heq]
  show (x.pool.shards ++ [s]).flatMap Shard.charges = _
  rw [List.flatMap_append, List.flatMap_singleton, Shard.charges, hregistry]
  exact List.append_nil _

/-- Books that balance, with what was found for a client: a shard where it is counted, or none. -/
structure Seats (x : Exchange) (charges : List Charge) (result : Except Fault Nat) (y : Exchange) :
    Prop where
  held : y.held = x.held
  books : ∃ b : Books, b.Balances charges ∧ b.account = x.books.account ∧
    b.nextSession = x.books.nextSession ∧
    ((∃ fault, result = .error fault ∧ y.books = b) ∨
      ∃ shard, result = .ok shard ∧ shard < b.loads.length ∧ y.books = b.charge shard)

theorem seats_assign (h : x.books.Balances charges) :
    x.Seats charges x.assign.1 x.assign.2 := by
  rcases x.assign_cases with ⟨s, hs, heq⟩ | ⟨fault, heq⟩
  · obtain ⟨n, hn⟩ := List.getElem?_of_mem hs
    have hlt : s.id < x.books.loads.length := by
      rw [id_of_shard? h hn, books, List.length_map]
      exact (List.getElem?_eq_some_iff.1 hn).1
    rw [heq]
    refine ⟨held_mapShard_of_same ?_ x s.id, x.books, h, rfl, rfl, Or.inr ?_⟩
    · exact fun _ => rfl
    · exact ⟨s.id, rfl, hlt, books_mapShard (fun _ => rfl) x s.id⟩
  · rw [heq]
    exact ⟨rfl, x.books, h, rfl, rfl, Or.inl ⟨fault, rfl, rfl⟩⟩

theorem seats_place (h : x.books.Balances charges) : x.Seats charges x.place.1 x.place.2 := by
  rcases x.place_cases with heq | heq | ⟨fault, heq⟩
  · rw [heq]
    exact seats_assign h
  · have hgrow := books_grow x
    obtain ⟨hheld, b, hbalances, haccount, hnext, hresult⟩ :=
      seats_assign (x := x.grow) (hgrow ▸ h.grow)
    rw [heq]
    rw [hgrow] at haccount hnext
    exact ⟨hheld.trans (held_grow x), b, hbalances, haccount, hnext, hresult⟩
  · rw [heq]
    exact ⟨rfl, x.books, h, rfl, rfl, Or.inl ⟨fault, rfl, rfl⟩⟩

/-- Who is admitted is charged from then on, under a session of its own. -/
theorem balances_accept (h : x.books.Balances charges)
    (hfresh : ∀ l ∈ charges, l.session ≠ x.nextSession) (identity : String)
    (remoteAddress : Option SocketAddress) (capacity : Nat) :
    (∃ y, x.accept identity remoteAddress capacity = (none, y) ∧ y.held = x.held ∧
      y.books.Balances charges ∧ y.books.account = x.books.account ∧
      y.nextSession = x.nextSession) ∨
    ∃ y shard, x.accept identity remoteAddress capacity = (some (x.nextSession, shard), y) ∧
      y.held = x.held ∧ y.books.Balances (Charge.new shard x.nextSession :: charges) ∧
      y.books.account = x.books.opened.account ∧ y.nextSession = x.nextSession + 1 := by
  obtain ⟨hheld, b, hb, haccount, hnext, hresult⟩ := seats_place h
  rw [accept]
  cases hplace : x.place with
  | mk result y =>
      rw [hplace] at hheld hresult
      rcases hresult with ⟨fault, rfl, rfl⟩ | ⟨shard, rfl, hlt, hbooks⟩
      · exact Or.inl ⟨y, rfl, hheld, hb, haccount, hnext⟩
      · have hnext' : y.nextSession = x.nextSession :=
          (congrArg Books.nextSession hbooks).trans hnext
        have hopen : (y.openConnection identity remoteAddress capacity).2.books
            = (b.charge shard).opened := by rw [books_openConnection, hbooks]
        have hseat := hb.seat hlt fun l hl => hnext ▸ hfresh l hl
        refine Or.inr ⟨(y.openConnection identity remoteAddress capacity).2, shard, ?_, hheld, ?_,
          ?_, ?_⟩
        · rw [← hnext']
          rfl
        · rw [hopen, ← show b.nextSession = x.nextSession from hnext]
          exact hseat
        · rw [hopen]
          simp only [Books.opened, Books.charge, haccount, hnext]
        · exact congrArg (· + 1) hnext'

theorem books_releaseLoad (x : Exchange) (shard : Nat) :
    (x.releaseLoad shard).books = x.books.release shard :=
  books_mapShard (fun _ => rfl) x shard

theorem held_releaseLoad (x : Exchange) (shard : Nat) : (x.releaseLoad shard).held = x.held :=
  held_mapShard_of_same (f := fun s => { s with load := s.load - 1 }) (fun _ => rfl) x shard

/-- Closing a connection that is open is the first time. -/
theorem shut_of_open (h : x.books.account session = some (session, false)) :
    (x.shut session).1 = true ∧ (x.shut session).2.books = x.books.shut session ∧
      (x.shut session).2.held = x.held := by
  obtain ⟨c, hc, heq⟩ := Option.map_eq_some_iff.1 h
  obtain ⟨rfl, hopen⟩ := Prod.mk.inj heq
  have hclose : c.close = (true, { c with isClosed := true, isCancelled := true }) := by
    rw [Connection.close, if_neg (by simp [hopen])]
  rw [shut, hc]
  dsimp only
  rw [hclose]
  refine ⟨rfl, ?_, rfl⟩
  refine Books.ext rfl (funext fun σ => ?_) rfl
  show (Exchange.connection? _ σ).map _ = if σ = c.session then _ else (x.connection? σ).map _
  rw [connection?_putConnection]
  by_cases hσ : σ = c.session
  · simp only [if_pos hσ, Option.map_some]
  · simp only [if_neg hσ]

theorem books_assignShard {isClosed : Bool}
    (h : x.books.account session = some (session, isClosed)) (shard : Nat) :
    (x.assignShard shard session).books = x.books := by
  obtain ⟨c, hc, heq⟩ := Option.map_eq_some_iff.1 h
  obtain ⟨rfl, -⟩ := Prod.mk.inj heq
  rw [assignShard, mapConnection, hc]
  refine Books.ext rfl (funext fun σ => ?_) rfl
  show (Exchange.connection? _ σ).map _ = (x.connection? σ).map _
  rw [connection?_putConnection]
  by_cases hσ : σ = c.session
  · rw [if_pos hσ, hσ, hc]
    rfl
  · rw [if_neg hσ]

theorem held_assignShard (x : Exchange) (shard : Nat) (session : Session) :
    (x.assignShard shard session).held = x.held := by
  rw [assignShard, mapConnection]
  split <;> rfl

/-- Who comes into a registry is held there in place of whoever had its identity. -/
theorem held_enrol {c : Connection} (hx : x.books.Balances charges)
    (hc : x.connection? session = some c) (hs : x.shard? shard = some s) :
    (x.enrol shard session).2.books = x.books ∧
      ((x.enrol shard session).2.held
          ++ (x.enrol shard session).1.toList.map (Charge.new shard)).Perm
        (x.held ++ [.new shard session]) := by
  have hholder : x.holder? shard c.identity = s.registry.get? c.identity := by
    rw [holder?, hs]
    rfl
  rw [enrol, hc]
  dsimp only
  rw [hholder]
  refine ⟨books_mapShard_of_same ?_ x shard, held_setRegistry_perm hx hs rfl ?_⟩
  · exact fun _ => ⟨rfl, rfl⟩
  · exact Registry.charges_hold_perm s.registry c.identity session shard

/-- Whoever is taken out of a registry was held there, and everybody else is held still. -/
theorem held_erase {identity : String} {stale : Session} (hx : x.books.Balances charges)
    (hs : x.shard? shard = some s) (h : s.registry.get? identity = some stale) :
    ((x.mapShard shard fun t => { t with registry := s.registry.erase identity }).held
      ++ [Charge.new shard stale]).Perm x.held := by
  rw [← List.append_nil x.held]
  refine held_setRegistry_perm hx hs rfl ?_
  rw [List.append_nil]
  exact (List.perm_append_singleton ..).trans (Registry.charges_erase h shard).symm

/-- Evicting takes nobody out of a registry, or whoever has the identity. -/
theorem oust_cases (x : Exchange) (shard : Nat) (identity : String) (keep : Session) :
    x.oust shard identity keep = (none, x) ∨
    ∃ s stale, x.shard? shard = some s ∧ s.registry.get? identity = some stale ∧
      x.oust shard identity keep = (some stale,
        x.mapShard shard fun t => { t with registry := s.registry.erase identity }) := by
  rw [oust]
  cases hs : x.shard? shard with
  | none => exact Or.inl rfl
  | some s =>
      by_cases h : ∀ stale, s.registry.holder identity = some stale → stale = keep
      · exact Or.inl (by simp only [Registry.expel_of_keep h])
      · simp only [not_forall] at h
        obtain ⟨stale, hstale, hkeep⟩ := h
        exact Or.inr ⟨s, stale, rfl, hstale, by simp only [Registry.expel_of_holder hstale hkeep]⟩

theorem held_oust (hx : x.books.Balances charges) (shard : Nat) (identity : String)
    (keep : Session) :
    (x.oust shard identity keep).2.books = x.books ∧
      ((x.oust shard identity keep).2.held
        ++ (x.oust shard identity keep).1.toList.map (Charge.new shard)).Perm x.held := by
  rcases x.oust_cases shard identity keep with heq | ⟨s, stale, hs, hstale, heq⟩
  · rw [heq]
    exact ⟨rfl, .of_eq (List.append_nil _)⟩
  · rw [heq]
    refine ⟨books_mapShard_of_same ?_ x shard, held_erase hx hs hstale⟩
    exact fun _ => ⟨rfl, rfl⟩

/-- A connection that lets go of its identity is taken out of the registry, or nobody is. -/
theorem letGo_cases (x : Exchange) (shard : Nat) (c : Connection) :
    x.letGo shard c = (false, x) ∨
    ∃ s, x.shard? shard = some s ∧
      (x.letGo shard c = (false, x.mapShard shard fun t => { t with registry := s.registry }) ∨
      s.registry.get? c.identity = some c.session ∧ x.letGo shard c = (true,
        x.mapShard shard fun t => { t with registry := s.registry.erase c.identity })) := by
  rw [letGo]
  cases hs : x.shard? shard with
  | none => exact Or.inl rfl
  | some s =>
      refine Or.inr ⟨s, rfl, ?_⟩
      by_cases hheld : s.registry.get? c.identity = some c.session
      · exact Or.inr ⟨hheld, by simp only [Registry.release_of_holder hheld]⟩
      · exact Or.inl (by simp only [Registry.release_of_ne hheld])

theorem held_letGo (hx : x.books.Balances charges) (shard : Nat) (c : Connection) :
    (x.letGo shard c).2.books = x.books ∧
      ((x.letGo shard c).2.held
        ++ if (x.letGo shard c).1 then [Charge.new shard c.session] else []).Perm x.held := by
  rcases x.letGo_cases shard c with heq | ⟨s, hs, heq | ⟨hheld, heq⟩⟩
  · rw [heq]
    exact ⟨rfl, .of_eq (List.append_nil _)⟩
  · -- the registry that is written back is the one that was read
    have hsame : ((x.mapShard shard fun t => { t with registry := s.registry }).held
        ++ []).Perm (x.held ++ []) := held_setRegistry_perm hx hs rfl (.refl _)
    rw [List.append_nil x.held] at hsame
    rw [heq]
    refine ⟨books_mapShard_of_same ?_ x shard, hsame⟩
    exact fun _ => ⟨rfl, rfl⟩
  · rw [heq]
    refine ⟨books_mapShard_of_same ?_ x shard, held_erase hx hs hheld⟩
    exact fun _ => ⟨rfl, rfl⟩

/-- Nothing of what follows touches a registry, a load or a connection. -/
theorem kept_of_eq (hshards : y.pool.shards = x.pool.shards)
    (hconnections : y.connections = x.connections) (hnext : y.nextSession = x.nextSession) :
    y.books = x.books ∧ y.held = x.held := by
  refine ⟨Books.ext ?_ ?_ hnext, ?_⟩
  · rw [books, books, hshards]
  · funext session
    have hconnection : y.connection? session = x.connection? session :=
      congrArg (Table.get? · session) hconnections
    exact congrArg (Option.map _) hconnection
  · rw [held, held, hshards]

theorem kept_changePresence (x : Exchange) (call : ServiceCall) (f : Presence → Presence) :
    (x.changePresence call f).2.books = x.books ∧ (x.changePresence call f).2.held = x.held := by
  have hattempt : (x.attempt call).2.books = x.books ∧ (x.attempt call).2.held = x.held :=
    kept_of_eq rfl rfl rfl
  rw [changePresence]
  split <;> rename_i heq <;> rw [heq] at hattempt <;> exact hattempt

theorem kept_depart (x : Exchange) (shard : Nat) (identity : String) :
    (x.depart shard identity).2.books = x.books ∧ (x.depart shard identity).2.held = x.held := by
  rw [depart]
  split
  · rw [untrack]
    split
    · exact kept_changePresence (x.mapPool fun p => { p with index := p.index.erase identity }) ..
    · exact ⟨rfl, rfl⟩
  · exact kept_changePresence x ..

theorem kept_announce (x : Exchange) (event : PresenceEvent) :
    (x.announce event).books = x.books ∧ (x.announce event).held = x.held := by
  rw [announce]
  split
  · split <;> exact ⟨rfl, rfl⟩
  · exact ⟨rfl, rfl⟩

/-- The charges of the connections that are held are those of whoever holds an identity. -/
theorem mem_held_iff (hx : x.books.Balances charges) :
    Charge.new shard session ∈ x.held ↔ ∃ identity, x.holder? shard identity = some session := by
  simp only [held, List.mem_flatMap, Shard.charges, Registry.charges, List.mem_map,
    Table.mem_values_iff, Charge.mk.injEq, and_true]
  constructor
  · rintro ⟨s, hs, σ, ⟨identity, hσ⟩, rfl, rfl⟩
    obtain ⟨n, hn⟩ := List.getElem?_of_mem hs
    refine ⟨identity, ?_⟩
    rw [id_of_shard? hx hn, holder?, show x.shard? n = some s from hn]
    exact hσ
  · rintro ⟨identity, hσ⟩
    rw [holder?] at hσ
    split at hσ
    · next s hs =>
        exact ⟨s, List.mem_of_getElem? hs, session, ⟨identity, hσ⟩, id_of_shard? hx hs, rfl⟩
    · cases hσ

/-- Whoever is held is charged as open. -/
theorem isClosed_of_mem_held {l : Charge} (hl : l ∈ x.held) : l.isClosed = false := by
  obtain ⟨s, -, hs⟩ := List.mem_flatMap.1 hl
  obtain ⟨σ, -, rfl⟩ := List.mem_map.1 hs
  rfl

end Exchange

/-! ## A step of a call -/

namespace Turnstile

namespace Call

/-- The charges that a call answers for: of whoever it took out of a registry, and of its own
connection until that comes into one. -/
def charges (c : Call) : List Charge :=
  c.leaving.toList ++ if c.stage.isEntering then [.new c.shard c.session] else []

/-- How a step of a call may change the books. -/
inductive Steps (c : Call) (x : Exchange) : Option Call → Exchange → Prop
  /-- It closes a connection, which is the first time that somebody does. -/
  | shut {l : Charge} {y : Exchange} (hleaving : c.leaving = some l) (hopen : l.isClosed = false)
      (hfirst : (x.shut l.session).1 = true) (hbooks : y.books = x.books.shut l.session)
      (hheld : y.held = x.held) :
      Steps c x (some { c with leaving := some { l with isClosed := true } }) y
  /-- It takes a connection that it closed off the load. -/
  | release {l : Charge} {y : Exchange} (hleaving : c.leaving = some l) (hclosed : l.isClosed = true)
      (hbooks : y.books = x.books.release l.shard) (hheld : y.held = x.held) :
      Steps c x (some { c with leaving := none }) y
  /-- It moves charges between registries and itself, and takes on whoever it took out of one. -/
  | move {next : Option Call} {y : Exchange} (hleaving : c.leaving = none)
      (hbooks : y.books = x.books)
      (hperm : (y.held ++ next.toList.flatMap charges).Perm (x.held ++ c.charges))
      (hleft : ∀ c' l, next = some c' → c'.leaving = some l → l ∈ x.held) : Steps c x next y

variable {x : Exchange} {c : Call} {connection : Connection} {shard : Nat} {rest : List Charge}

theorem steps_leaving {l : Charge} {stage : Stage}
    (h : x.books.account l.session = some (l.session, l.isClosed)) :
    Steps ⟨connection, shard, some l, stage⟩ x (perform ⟨connection, shard, some l, stage⟩ x).1
      (perform ⟨connection, shard, some l, stage⟩ x).2 := by
  -- whom it has on its hands it closes first, and then takes off the load
  by_cases hclosed : l.isClosed = true
  · rw [perform_release hclosed]
    exact .release rfl hclosed (Exchange.books_releaseLoad ..) (Exchange.held_releaseLoad ..)
  · have hopen : l.isClosed = false := Bool.eq_false_of_not_eq_true hclosed
    rw [hopen] at h
    obtain ⟨hfirst, hbooks, hheld⟩ := Exchange.shut_of_open h
    rw [perform_shut hopen (Prod.ext hfirst rfl)]
    exact .shut rfl hopen hfirst hbooks hheld

/-- A step that neither touches the books nor takes anybody out of a registry. -/
theorem steps_of_kept {stage : Stage} {next : Option Call} {y : Exchange}
    (hkept : y.books = x.books ∧ y.held = x.held)
    (hnext : next.toList.flatMap charges = charges ⟨connection, shard, none, stage⟩)
    (hleft : ∀ c', next = some c' → c'.leaving = none) :
    Steps ⟨connection, shard, none, stage⟩ x next y := by
  refine .move rfl hkept.1 (.of_eq (by rw [hkept.2, hnext])) fun c' l hc' hl => ?_
  rw [hleft c' hc'] at hl
  cases hl

/-- A step that takes somebody out of a registry, or nobody. -/
theorem steps_of_taken {stage next : Stage} {y : Exchange} {n : Nat} {stale : Option Session}
    (hnext : next.isEntering = false) (hbooks : y.books = x.books)
    (hperm : (y.held ++ stale.toList.map (Charge.new n)).Perm
      (x.held ++ charges ⟨connection, shard, none, stage⟩))
    (hheld : ∀ σ, stale = some σ → Charge.new n σ ∈ x.held) :
    Steps ⟨connection, shard, none, stage⟩ x
      (some ⟨connection, shard, stale.map (.new n), next⟩) y := by
  refine .move rfl hbooks ?_ ?_
  · have hcharges : charges ⟨connection, shard, stale.map (.new n), next⟩
        = stale.toList.map (Charge.new n) := by
      rw [charges, hnext]
      cases stale <;> rfl
    rw [Option.toList_some, List.flatMap_singleton, hcharges]
    exact hperm
  · rintro c' l ⟨⟩ hl
    obtain ⟨σ, hσ, rfl⟩ := Option.map_eq_some_iff.1 hl
    exact hheld σ hσ

theorem steps_hold
    (h : x.books.Balances (x.held ++ ([.new shard connection.session] ++ rest))) :
    Steps ⟨connection, shard, none, .hold⟩ x (perform ⟨connection, shard, none, .hold⟩ x).1
      (perform ⟨connection, shard, none, .hold⟩ x).2 := by
  have hmem : Charge.new shard connection.session
      ∈ x.held ++ ([.new shard connection.session] ++ rest) := by simp
  obtain ⟨s, hs⟩ : ∃ s, x.shard? shard = some s := Exchange.exists_shard?_of_lt (h.lodged _ hmem)
  obtain ⟨c, hc, -⟩ := Option.map_eq_some_iff.1 (h.account _ hmem)
  obtain ⟨hbooks, hperm⟩ := Exchange.held_enrol h hc hs
  have hdisplaced : (x.enrol shard connection.session).1 = x.holder? shard c.identity := by
    rw [Exchange.enrol, hc]
  -- the connection itself was not held before, so whoever was displaced is another one
  have hnew : ∀ stale, (x.enrol shard connection.session).1 = some stale →
      Charge.new shard stale ∈ x.held ∧ stale ≠ connection.session := by
    intro stale hstale
    have hheld : Charge.new shard stale ∈ x.held :=
      (Exchange.mem_held_iff h).2 ⟨c.identity, hdisplaced.symm.trans hstale⟩
    have hfront : x.books.Balances (.new shard connection.session :: (x.held ++ rest)) :=
      h.perm List.perm_middle
    exact ⟨hheld, hfront.ne_of_mem (List.mem_append_left _ hheld)⟩
  have hfilter : (x.enrol shard connection.session).1.filter
      (fun stale => decide (stale ≠ connection.session)) = (x.enrol shard connection.session).1 := by
    cases hstale : (x.enrol shard connection.session).1 with
    | none => rfl
    | some stale => rw [Option.filter_some, if_pos (decide_eq_true (hnew stale hstale).2)]
  rw [perform_hold, hfilter]
  exact steps_of_taken rfl hbooks hperm fun stale hstale => (hnew stale hstale).1

theorem steps_evict (h : x.books.Balances (x.held ++ rest)) (previous : Nat) :
    Steps ⟨connection, shard, none, .evict previous⟩ x
      (perform ⟨connection, shard, none, .evict previous⟩ x).1
      (perform ⟨connection, shard, none, .evict previous⟩ x).2 := by
  obtain ⟨hbooks, hperm⟩ := Exchange.held_oust h previous connection.identity connection.session
  rw [perform_evict]
  refine steps_of_taken rfl hbooks (hperm.trans (.of_eq (List.append_nil _).symm)) ?_
  intro stale hstale
  rw [hstale] at hperm
  exact hperm.subset (List.mem_append_right _ (List.mem_singleton.2 rfl))

theorem steps_letGo (h : x.books.Balances (x.held ++ rest)) :
    Steps ⟨connection, shard, none, .letGo⟩ x (perform ⟨connection, shard, none, .letGo⟩ x).1
      (perform ⟨connection, shard, none, .letGo⟩ x).2 := by
  obtain ⟨hbooks, hperm⟩ := Exchange.held_letGo h shard connection
  rw [perform_letGo]
  cases hheld : (x.letGo shard connection).1 with
  | true =>
      rw [hheld] at hperm
      refine @steps_of_taken x connection shard .letGo .untrack _ shard (some connection.session) rfl
        hbooks (hperm.trans (.of_eq (List.append_nil _).symm)) ?_
      rintro stale ⟨⟩
      exact hperm.subset (List.mem_append_right _ (List.mem_singleton.2 rfl))
  | false =>
      rw [hheld] at hperm
      -- the shard does not hold the connection any more, and the call is over
      exact .move rfl hbooks (hperm.trans (.of_eq (List.append_nil _).symm)) fun c' l hc' => by cases hc'

theorem steps_track (x : Exchange) (connection : Connection) (shard : Nat) :
    Steps ⟨connection, shard, none, .track⟩ x (perform ⟨connection, shard, none, .track⟩ x).1
      (perform ⟨connection, shard, none, .track⟩ x).2 := by
  by_cases hreachable : x.pool.isReachable = true
  · rw [perform_track hreachable]
    refine steps_of_kept (Exchange.kept_of_eq rfl rfl rfl) ?_ ?_
    · cases x.pool.index.get? connection.identity with
      | none => rfl
      | some previous =>
          dsimp only
          split <;> rfl
    · rintro c' ⟨⟩
      rfl
  · have hperform : perform ⟨connection, shard, none, .track⟩ x
        = (some ⟨connection, shard, none, .setOnline⟩, x) := by simp [perform, hreachable]
    rw [hperform]
    refine steps_of_kept ⟨rfl, rfl⟩ rfl ?_
    rintro c' ⟨⟩
    rfl

/-- A step after which a call goes on to tell what it did, or breaks off. -/
theorem steps_of_told {stage : Stage} {goesOn : Bool} {kind : PresenceKind} {y : Exchange}
    (hstage : stage.isEntering = false) (hkept : y.books = x.books ∧ y.held = x.held) :
    Steps ⟨connection, shard, none, stage⟩ x
      (if goesOn then some ⟨connection, shard, none, .announce kind⟩ else none) y := by
  have hnone : charges ⟨connection, shard, none, stage⟩ = [] := by
    rw [charges, hstage]
    rfl
  cases goesOn with
  | false => exact steps_of_kept hkept hnone.symm fun c' hc' => by cases hc'
  | true =>
      refine steps_of_kept hkept hnone.symm ?_
      rintro c' ⟨⟩
      rfl

/-- **What a step of a call does to the books**, if they balance with what the call answers for. -/
theorem steps_perform (h : x.books.Balances (x.held ++ (c.charges ++ rest))) :
    Steps c x (c.perform x).1 (c.perform x).2 := by
  obtain ⟨connection, shard, leaving, stage⟩ := c
  cases leaving with
  | some l => exact steps_leaving (h.account l (by simp [charges]))
  | none =>
      cases stage with
      | assign =>
          have haccount := h.account (.new shard connection.session)
            (by simp [charges, Stage.isEntering])
          refine steps_of_kept ⟨Exchange.books_assignShard haccount shard, ?_⟩ rfl ?_
          · exact Exchange.held_assignShard ..
          · rintro c' ⟨⟩
            rfl
      | hold => exact steps_hold h
      | track => exact steps_track ..
      | evict previous => exact steps_evict h previous
      | setOnline =>
          rw [perform_setOnline]
          exact steps_of_told rfl (Exchange.kept_changePresence x ..)
      | letGo => exact steps_letGo h
      | untrack =>
          rw [perform_untrack]
          exact steps_of_told rfl (Exchange.kept_depart x ..)
      | announce kind =>
          exact steps_of_kept (Exchange.kept_announce x _) rfl fun c' hc' => by cases hc'

theorem Steps.balances {next : Option Call} {y : Exchange} (hs : Steps c x next y)
    (h : x.books.Balances (x.held ++ (c.charges ++ rest))) :
    y.books.Balances (y.held ++ (next.toList.flatMap charges ++ rest)) := by
  cases hs with
  | shut hleaving hopen hfirst hbooks hheld =>
      rename_i l
      rw [charges, hleaving] at h
      rw [hbooks, hheld, Option.toList_some, List.flatMap_singleton, charges]
      exact (h.perm List.perm_middle).shut.perm List.perm_middle.symm
  | release hleaving hclosed hbooks hheld =>
      rw [charges, hleaving] at h
      rw [hbooks, hheld, Option.toList_some, List.flatMap_singleton, charges]
      exact (h.perm List.perm_middle).release
  | move hleaving hbooks hperm hleft =>
      rw [hbooks, ← List.append_assoc]
      rw [← List.append_assoc] at h
      exact h.perm (hperm.symm.append_right rest)

/-- Whoever is charged after a step was charged to the same shard before it. -/
theorem Steps.charged {next : Option Call} {y : Exchange} (hs : Steps c x next y) {l : Charge}
    (hl : l ∈ y.held ++ (next.toList.flatMap charges ++ rest)) :
    ∃ l' ∈ x.held ++ (c.charges ++ rest), l'.session = l.session ∧ l'.shard = l.shard := by
  cases hs with
  | shut hleaving hopen hfirst hbooks hheld =>
      rename_i left
      rw [hheld, Option.toList_some, List.flatMap_singleton, charges] at hl
      rw [charges, hleaving]
      rcases List.mem_cons.1 (List.perm_middle.subset hl) with rfl | hl
      · exact ⟨left, List.perm_middle.symm.subset (List.mem_cons_self ..), rfl, rfl⟩
      · exact ⟨l, List.perm_middle.symm.subset (List.mem_cons_of_mem _ hl), rfl, rfl⟩
  | release hleaving hclosed hbooks hheld =>
      rw [hheld, Option.toList_some, List.flatMap_singleton, charges] at hl
      rw [charges, hleaving]
      exact ⟨l, List.perm_middle.symm.subset (List.mem_cons_of_mem _ hl), rfl, rfl⟩
  | move hleaving hbooks hperm hleft =>
      rw [← List.append_assoc] at hl ⊢
      exact ⟨l, (hperm.append_right rest).subset hl, rfl, rfl⟩

/-- A step keeps every connection, and who was closed stays closed. -/
theorem Steps.account {next : Option Call} {y : Exchange} (hs : Steps c x next y)
    (h : x.books.Balances (x.held ++ (c.charges ++ rest))) (session : Session) :
    (y.books.account session).isSome = (x.books.account session).isSome ∧
      (x.books.account session = some (session, true) →
        y.books.account session = some (session, true)) := by
  cases hs with
  | shut hleaving hopen hfirst hbooks hheld =>
      rename_i l
      have haccount := h.account l (by simp [charges, hleaving])
      rw [hbooks]
      by_cases hsession : session = l.session
      · subst hsession
        -- whoever is shut was there already
        simp [Books.shut, haccount]
      · simp [Books.shut, hsession]
  | release hleaving hclosed hbooks hheld =>
      rw [hbooks]
      exact ⟨rfl, id⟩
  | move hleaving hbooks hperm hleft =>
      rw [hbooks]
      exact ⟨rfl, id⟩

theorem Steps.nextSession {next : Option Call} {y : Exchange} (hs : Steps c x next y) :
    y.nextSession = x.nextSession := by
  cases hs with
  | shut _ _ _ hbooks _ => exact congrArg Books.nextSession hbooks
  | release _ _ hbooks _ => exact congrArg Books.nextSession hbooks
  | move _ hbooks _ _ => exact congrArg Books.nextSession hbooks

/-- A call that has an open connection on its hands closes it. -/
theorem Steps.books_of_open {next : Option Call} {y : Exchange} (hs : Steps c x next y)
    {l : Charge} (hl : c.leaving = some l) (hopen : l.isClosed = false) :
    y.books = x.books.shut l.session := by
  cases hs with
  | shut hleaving _ _ hbooks _ =>
      obtain rfl := Option.some.inj (hl.symm.trans hleaving)
      exact hbooks
  | release hleaving hclosed _ _ =>
      obtain rfl := Option.some.inj (hl.symm.trans hleaving)
      rw [hopen] at hclosed
      cases hclosed
  | move hleaving _ _ _ =>
      rw [hl] at hleaving
      cases hleaving

/-- Whom a call has on its hands after a step it had before, or somebody held it. -/
theorem Steps.leaving {c' : Call} {y : Exchange} (hs : Steps c x (some c') y) {l : Charge}
    (hl : c'.leaving = some l) :
    (∃ l', c.leaving = some l' ∧ l'.shard = l.shard ∧ l'.session = l.session) ∨ l ∈ x.held := by
  cases hs with
  | shut hleaving _ _ _ _ =>
      obtain rfl := Option.some.inj hl
      exact Or.inl ⟨_, hleaving, rfl, rfl⟩
  | release _ _ _ _ => cases hl
  | move _ _ _ hleft => exact Or.inr (hleft c' l rfl hl)

end Call

end Turnstile

end Switchboard
