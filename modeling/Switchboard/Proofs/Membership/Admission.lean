import Switchboard.Proofs.Membership.Roster

/-!
# Where clients are admitted

A client is admitted to the first of the least-loaded shards. Where every shard has reached the
threshold one more is added before, as long as there may be more; after that the client is refused,
or goes over the threshold, as it is configured. `place_cases` says this once, and everything else
is read off it: what the next client finds (`Admits`), and the bounds that no admission and no
leaving ever breaks (`inBounds_meet`), so that they hold after any history (`admits_of_demands`).
-/

namespace Switchboard

/-- The settings of a pool that are in order. -/
theorem Config.checkPool_eq_ok_iff {s : PoolSettings} : Config.checkPool s = .ok () ↔
    1 ≤ s.initialShards ∧ s.initialShards ≤ s.maxShards ∧ 1 ≤ s.loadThreshold := by
  rw [Config.checkPool]
  split
  · exact iff_of_false (by simp) (by omega)
  · split
    · exact iff_of_false (by simp) (by omega)
    · split
      · exact iff_of_false (by simp) (by omega)
      · exact iff_of_true rfl (by omega)

/-- The place in a list of loads where the least of them comes first. -/
def IsLightest (loads : List Nat) (place : Nat) : Prop :=
  ∃ least, loads[place]? = some least ∧
    ∀ other load, loads[other]? = some load → least ≤ load ∧ (other < place → least < load)

/-- There is one such place at most. -/
theorem IsLightest.unique {loads : List Nat} {place place' : Nat} (h : IsLightest loads place)
    (h' : IsLightest loads place') : place = place' := by
  obtain ⟨least, hleast, hbefore⟩ := h
  obtain ⟨least', hleast', hbefore'⟩ := h'
  have hlt := hbefore place' least' hleast'
  have hlt' := hbefore' place least hleast
  omega

namespace Exchange

/-- What is asked of admission: a place for a client, or that a shard lose one. -/
inductive Demand
  | seat
  | release (shard : Nat)
  deriving DecidableEq, Repr

def meet (x : Exchange) : Demand → Exchange
  | .seat => x.place.2
  | .release shard => x.releaseLoad shard

/-- The exchange after some demands. -/
def meetAll (x : Exchange) (demands : List Demand) : Exchange := demands.foldl meet x

/-- The number of shards. -/
def size (x : Exchange) : Nat := x.pool.shards.length

/-- The load of each shard, in their order. -/
def loads (x : Exchange) : List Nat := x.pool.shards.map Shard.load

/-- One more client counts for a shard. -/
def charge (x : Exchange) (shard : Nat) : Exchange :=
  x.mapShard shard fun s => { s with load := s.load + 1 }

/-- Every shard has reached the threshold. -/
def Saturated (x : Exchange) : Prop := ∀ load ∈ x.loads, x.config.pool.loadThreshold ≤ load

instance (x : Exchange) : Decidable x.Saturated :=
  inferInstanceAs (Decidable (∀ load ∈ x.loads, x.config.pool.loadThreshold ≤ load))

/-- Whether a shard is to be added before a client is admitted. -/
def Grows (x : Exchange) : Prop := x.Saturated ∧ x.size < x.config.pool.maxShards

instance (x : Exchange) : Decidable x.Grows := inferInstanceAs (Decidable (_ ∧ _))

/-- The shards that a client is looked for a place at. -/
def extended (x : Exchange) : Exchange := if x.Grows then x.grow else x

/-- Clients are refused: every shard that there may be has reached the threshold. -/
def Full (x : Exchange) : Prop :=
  x.config.pool.rejectWhenSaturated = true ∧ x.size = x.config.pool.maxShards ∧ x.Saturated

/-- What the next client finds. -/
structure Admits (x : Exchange) : Prop where
  size : x.place.2.size = if x.Grows then x.size + 1 else x.size
  /-- A shard that is added has no load, and the others have theirs. -/
  loads : x.extended.loads = if x.Grows then x.loads ++ [0] else x.loads
  /-- Whoever is admitted is counted at the first of the least-loaded shards, and nowhere else. -/
  seated : ∀ shard y, x.place = (.ok shard, y) → IsLightest x.extended.loads shard
    ∧ (∃ s, x.extended.shard? shard = some s ∧ y.shard? shard = some { s with load := s.load + 1 })
    ∧ ∀ other, other ≠ shard → y.shard? other = x.extended.shard? other
  refused_iff : (∃ fault, x.place.1 = .error fault) ↔ x.Full
  refused : x.Full → x.place =
    (.error (.poolExhausted x.config.pool.maxShards x.config.pool.loadThreshold), x)

/-- The shards are as many as there may be, numbered in their order, and not over the threshold if
clients are refused then. -/
structure InBounds (x : Exchange) : Prop where
  numbered : x.ground.Numbered
  initial : x.config.pool.initialShards ≤ x.size
  greatest : x.size ≤ x.config.pool.maxShards
  threshold : x.config.pool.rejectWhenSaturated = true →
    ∀ load ∈ x.loads, load ≤ x.config.pool.loadThreshold

variable {x : Exchange} {shard : Nat}

/-! ## Finding a place -/

theorem isSaturated_iff : x.isSaturated = true ↔ x.Saturated := by
  simp only [isSaturated, Saturated, loads, List.all_eq_true, decide_eq_true_eq, List.mem_map,
    forall_exists_index, and_imp, forall_apply_eq_imp_iff₂]

theorem leastLoaded_eq_none_iff {shards : List Shard} :
    leastLoaded shards = none ↔ shards = [] := by
  cases shards with
  | nil => exact iff_of_true rfl rfl
  | cons s shards =>
      refine iff_of_false ?_ (List.cons_ne_nil s shards)
      rw [leastLoaded]
      split
      · split <;> exact Option.some_ne_none _
      · exact Option.some_ne_none _

/-- The least-loaded shard is where the first of the least loads is. -/
theorem isLightest_of_leastLoaded {shards : List Shard} {s : Shard}
    (h : leastLoaded shards = some s) :
    ∃ place : Nat, shards[place]? = some s ∧ IsLightest (shards.map Shard.load) place := by
  induction shards generalizing s with
  | nil => cases h
  | cons t shards ih =>
      rw [leastLoaded] at h
      cases hrest : leastLoaded shards with
      | none =>
          rw [hrest] at h
          obtain rfl := Option.some.inj h
          obtain rfl := leastLoaded_eq_none_iff.1 hrest
          refine ⟨0, rfl, t.load, rfl, fun other load hload => ?_⟩
          cases other with
          | zero => exact ⟨Nat.le_of_eq (Option.some.inj hload), fun h => absurd h (Nat.lt_irrefl _)⟩
          | succ other => cases hload
      | some u =>
          obtain ⟨place, hu, least, hplace, hleast⟩ := ih hrest
          obtain rfl : u.load = least := by
            rw [List.getElem?_map, hu] at hplace
            exact Option.some.inj hplace
          rw [hrest] at h
          dsimp only at h
          split at h
          · next hlt =>
              -- a later shard has less
              obtain rfl := Option.some.inj h
              refine ⟨place + 1, hu, u.load, hplace, fun other load hload => ?_⟩
              cases other with
              | zero =>
                  obtain rfl := Option.some.inj hload
                  exact ⟨Nat.le_of_lt hlt, fun _ => hlt⟩
              | succ other =>
                  obtain ⟨hle, hbefore⟩ := hleast other load hload
                  exact ⟨hle, fun h => hbefore (Nat.lt_of_succ_lt_succ h)⟩
          · next hnot =>
              obtain rfl := Option.some.inj h
              refine ⟨0, rfl, t.load, rfl, fun other load hload =>
                ⟨?_, fun h => absurd h (Nat.not_lt_zero _)⟩⟩
              cases other with
              | zero => exact Nat.le_of_eq (Option.some.inj hload)
              | succ other => exact Nat.le_trans (Nat.not_lt.1 hnot) (hleast other load hload).1

/-- The number of a shard is its place. -/
theorem id_eq_of_numbered (hnumbered : x.ground.Numbered) {s : Shard}
    (hs : x.shard? shard = some s) : s.id = shard := by
  have hid : x.ground.shards[shard]? = some s.id := by
    show (x.pool.shards.map Shard.id)[shard]? = _
    rw [List.getElem?_map]
    exact congrArg (Option.map Shard.id) hs
  rw [hnumbered] at hid
  obtain ⟨hlt, heq⟩ := List.getElem?_eq_some_iff.1 hid
  rw [List.getElem_range] at heq
  exact heq.symm

/-- A place is found wherever there is a shard. -/
theorem assign_of_size_pos (hnumbered : x.ground.Numbered) (hsize : 0 < x.size) :
    ∃ shard, IsLightest x.loads shard ∧ x.assign = (.ok shard, x.charge shard) := by
  rw [assign]
  cases hleast : leastLoaded x.pool.shards with
  | none =>
      rw [leastLoaded_eq_none_iff] at hleast
      rw [size, hleast] at hsize
      exact absurd hsize (Nat.lt_irrefl _)
  | some s =>
      obtain ⟨place, hs, hlightest⟩ := isLightest_of_leastLoaded hleast
      obtain rfl := id_eq_of_numbered hnumbered hs
      exact ⟨s.id, hlightest, rfl⟩

theorem numbered_extended (h : x.ground.Numbered) : x.extended.ground.Numbered := by
  rw [extended]
  split
  · exact (placed_grow x).numbered h
  · exact h

theorem size_le_extended (x : Exchange) : x.size ≤ x.extended.size := by
  rw [extended]
  split
  · exact (placed_grow x).size
  · exact Nat.le_refl _

/-- **The next client is refused, or has a place at the first of the least-loaded shards.** -/
theorem place_cases_of_size (hnumbered : x.ground.Numbered) (hpos : 0 < x.size)
    (hsize : x.size ≤ x.config.pool.maxShards) :
    (x.Full ∧ x.place =
      (.error (.poolExhausted x.config.pool.maxShards x.config.pool.loadThreshold), x)) ∨
    (¬ x.Full ∧ ∃ shard, IsLightest x.extended.loads shard
      ∧ x.place = (.ok shard, x.extended.charge shard)) := by
  have hassign := assign_of_size_pos (numbered_extended hnumbered)
    (Nat.lt_of_lt_of_le hpos x.size_le_extended)
  by_cases hsaturated : x.Saturated
  · by_cases hgrows : x.pool.shards.length < x.config.pool.maxShards
    · have hextended : x.extended = x.grow := if_pos ⟨hsaturated, hgrows⟩
      refine Or.inr ⟨fun hfull => Nat.ne_of_lt hgrows hfull.2.1, ?_⟩
      rw [hextended] at hassign ⊢
      rw [place, if_pos (isSaturated_iff.2 hsaturated), if_pos hgrows]
      exact hassign
    · have hextended : x.extended = x := if_neg fun h => hgrows h.2
      have hmost : x.size = x.config.pool.maxShards := Nat.le_antisymm hsize (Nat.not_lt.1 hgrows)
      have hne : ¬ x.pool.shards.length = 0 := Nat.ne_of_gt hpos
      rw [place, if_pos (isSaturated_iff.2 hsaturated), if_neg hgrows]
      -- there are shards, so that it is the configuration alone that decides
      simp only [hne, or_false]
      by_cases hreject : x.config.pool.rejectWhenSaturated = true
      · rw [if_pos hreject, ← hmost]
        exact Or.inl ⟨⟨hreject, hmost, hsaturated⟩, rfl⟩
      · rw [if_neg hreject]
        rw [hextended] at hassign ⊢
        exact Or.inr ⟨fun hfull => hreject hfull.1, hassign⟩
  · have hextended : x.extended = x := if_neg fun h => hsaturated h.1
    refine Or.inr ⟨fun hfull => hsaturated hfull.2.2, ?_⟩
    rw [hextended] at hassign ⊢
    rw [place, if_neg fun h => hsaturated (isSaturated_iff.1 h)]
    exact hassign

/-! ## Loads -/

theorem loads_grow (x : Exchange) : x.grow.loads = x.loads ++ [0] := by
  rw [grow, loads, loads]
  refine (List.map_append ..).trans (congrArg (_ ++ ·) ?_)
  split <;> rfl

theorem loads_extended (x : Exchange) :
    x.extended.loads = if x.Grows then x.loads ++ [0] else x.loads := by
  rw [extended]
  split
  · exact loads_grow x
  · rfl

theorem length_loads (x : Exchange) : x.loads.length = x.size := List.length_map ..

theorem size_extended (x : Exchange) :
    x.extended.size = if x.Grows then x.size + 1 else x.size := by
  rw [← length_loads, loads_extended, ← length_loads]
  split
  · exact List.length_append
  · rfl

theorem loads_mapShard {f : Shard → Shard} {g : Nat → Nat} (h : ∀ s, (f s).load = g s.load)
    (x : Exchange) (shard : Nat) : (x.mapShard shard f).loads = x.loads.modify shard g := by
  refine List.ext_getElem? fun n => ?_
  show ((x.pool.shards.modify shard f).map Shard.load)[n]? = _
  rw [loads, List.getElem?_map, List.getElem?_modify, List.getElem?_modify, List.getElem?_map]
  cases x.pool.shards[n]? with
  | none => rfl
  | some s =>
      by_cases hn : shard = n
      · simp [hn, h]
      · simp [hn]

theorem loads_charge (x : Exchange) (shard : Nat) :
    (x.charge shard).loads = x.loads.modify shard (· + 1) :=
  loads_mapShard (fun _ => rfl) x shard

theorem loads_releaseLoad (x : Exchange) (shard : Nat) :
    (x.releaseLoad shard).loads = x.loads.modify shard (· - 1) :=
  loads_mapShard (fun _ => rfl) x shard

theorem size_mapShard (x : Exchange) (shard : Nat) (f : Shard → Shard) :
    (x.mapShard shard f).size = x.size := List.length_modify ..

theorem numbered_setLoad (h : x.ground.Numbered) (shard : Nat) (f : Nat → Nat) :
    (x.mapShard shard fun s => { s with load := f s.load }).ground.Numbered := by
  have hground : (x.mapShard shard fun s => { s with load := f s.load }).ground = x.ground := by
    refine ground_mapShard ?_ ..
    exact fun _ => rfl
  rw [hground]
  exact h

theorem config_extended (x : Exchange) : x.extended.config = x.config := by
  rw [extended]
  split <;> rfl

/-- The load of a shard that a client is admitted to is below the threshold, unless clients go over
it. -/
theorem lt_threshold_of_isLightest (hthreshold : 0 < x.config.pool.loadThreshold)
    (hreject : x.config.pool.rejectWhenSaturated = true) (hfull : ¬ x.Full)
    (hsize : x.size ≤ x.config.pool.maxShards) (h : IsLightest x.extended.loads shard) {load : Nat}
    (hload : x.extended.loads[shard]? = some load) : load < x.config.pool.loadThreshold := by
  -- somewhere there is a load below the threshold, and the lightest is not above it
  obtain ⟨other, below, hother, hbelow⟩ : ∃ (other below : Nat),
      x.extended.loads[other]? = some below ∧ below < x.config.pool.loadThreshold := by
    rw [loads_extended]
    split
    · exact ⟨x.loads.length, 0, by simp, hthreshold⟩
    · next hgrows =>
        have hnot : ¬ x.Saturated := by
          intro hsaturated
          have hmost := Nat.not_lt.1 fun hlt => hgrows ⟨hsaturated, hlt⟩
          exact hfull ⟨hreject, Nat.le_antisymm hsize hmost, hsaturated⟩
        simp only [Saturated, Classical.not_forall, Nat.not_le] at hnot
        obtain ⟨below, hmem, hbelow⟩ := hnot
        obtain ⟨other, hother⟩ := List.getElem?_of_mem hmem
        exact ⟨other, below, hother, hbelow⟩
  obtain ⟨least, hleast, hle⟩ := h
  obtain rfl := Option.some.inj (hload.symm.trans hleast)
  exact Nat.lt_of_le_of_lt (hle other below hother).1 hbelow

/-! ## One demand -/

theorem config_assign (x : Exchange) : x.assign.2.config = x.config := by
  rcases x.assign_cases with ⟨s, -, h⟩ | ⟨fault, h⟩
  · rw [h]
    rfl
  · rw [h]

theorem config_meet (x : Exchange) (demand : Demand) : (x.meet demand).config = x.config := by
  cases demand with
  | seat =>
      rw [meet]
      rcases x.place_cases with h | h | ⟨fault, h⟩
      · rw [h, config_assign]
      · rw [h, config_assign]
        rfl
      · rw [h]
  | release shard => rfl

/-- Clients that leave and clients that come keep the shards within bounds. -/
theorem inBounds_meet (hcheck : Config.checkPool x.config.pool = .ok ()) (h : x.InBounds)
    (demand : Demand) : (x.meet demand).InBounds := by
  obtain ⟨hinitial, -, hthreshold⟩ := Config.checkPool_eq_ok_iff.1 hcheck
  cases demand with
  | release shard =>
      have hsize : (x.releaseLoad shard).size = x.size := x.size_mapShard shard _
      refine ⟨numbered_setLoad h.numbered shard (· - 1), hsize ▸ h.initial,
        hsize ▸ h.greatest, fun hreject load hload => ?_⟩
      rw [meet, loads_releaseLoad] at hload
      obtain ⟨n, hn⟩ := List.getElem?_of_mem hload
      rw [List.getElem?_modify] at hn
      obtain ⟨before, hbefore, rfl⟩ := Option.map_eq_some_iff.1 hn
      have hle := h.threshold hreject before (List.mem_of_getElem? hbefore)
      show _ ≤ x.config.pool.loadThreshold
      split <;> omega
  | seat =>
      have hpos : 0 < x.size := Nat.lt_of_lt_of_le hinitial h.initial
      rcases place_cases_of_size h.numbered hpos h.greatest with ⟨-, hplace⟩ |
        ⟨hfull, shard, hlightest, hplace⟩
      · rw [meet, hplace]
        exact h
      · have hsize : (x.extended.charge shard).size = x.extended.size := size_mapShard _ shard _
        have hconfig : (x.extended.charge shard).config = x.config := x.config_extended
        rw [meet, hplace]
        refine ⟨numbered_setLoad (numbered_extended h.numbered) shard (· + 1), ?_, ?_, ?_⟩
        · rw [hconfig, hsize]
          exact Nat.le_trans h.initial x.size_le_extended
        · rw [hconfig, hsize, size_extended]
          split
          · next hgrows => exact hgrows.2
          · exact h.greatest
        · rw [hconfig]
          intro hreject load hload
          rw [loads_charge] at hload
          obtain ⟨n, hn⟩ := List.getElem?_of_mem hload
          rw [List.getElem?_modify] at hn
          obtain ⟨before, hbefore, rfl⟩ := Option.map_eq_some_iff.1 hn
          split
          · next hshard =>
              rw [← hshard] at hbefore
              exact lt_threshold_of_isLightest hthreshold hreject hfull h.greatest hlightest hbefore
          · have hmem := List.mem_of_getElem? hbefore
            rw [loads_extended] at hmem
            split at hmem
            · rcases List.mem_append.1 hmem with hmem | hmem
              · exact h.threshold hreject _ hmem
              · rw [List.mem_singleton.1 hmem]
                exact Nat.zero_le _
            · exact h.threshold hreject _ hmem

/-- Within bounds, the next client finds what it is to find. -/
theorem admits_of_inBounds (hcheck : Config.checkPool x.config.pool = .ok ()) (h : x.InBounds) :
    x.Admits := by
  obtain ⟨hinitial, -, -⟩ := Config.checkPool_eq_ok_iff.1 hcheck
  have hpos : 0 < x.size := Nat.lt_of_lt_of_le hinitial h.initial
  rcases place_cases_of_size h.numbered hpos h.greatest with ⟨hfull, hplace⟩ |
    ⟨hfull, shard, hlightest, hplace⟩
  · have hgrows : ¬ x.Grows := fun hgrows => Nat.ne_of_lt hgrows.2 hfull.2.1
    refine ⟨?_, x.loads_extended, ?_, ?_, fun _ => hplace⟩
    · rw [hplace, if_neg hgrows]
    · intro shard y hok
      rw [hplace] at hok
      cases hok
    · exact iff_of_true ⟨_, congrArg Prod.fst hplace⟩ hfull
  · refine ⟨?_, x.loads_extended, ?_, ?_, fun h => absurd h hfull⟩
    · rw [hplace, ← size_extended]
      exact size_mapShard _ shard _
    · intro shard' y hok
      rw [hplace] at hok
      obtain ⟨hshard, rfl⟩ := Prod.mk.inj hok
      obtain rfl := Except.ok.inj hshard
      have hat := shard?_mapShard x.extended shard fun s => { s with load := s.load + 1 }
      refine ⟨hlightest, ?_, fun other hother => (hat other).trans (if_neg hother)⟩
      obtain ⟨least, hleast, -⟩ := hlightest
      obtain ⟨s, hs, -⟩ := Option.map_eq_some_iff.1 ((List.getElem?_map ..).symm.trans hleast)
      exact ⟨s, hs, (hat shard).trans (by rw [if_pos rfl]; exact congrArg _ hs)⟩
    · refine iff_of_false ?_ hfull
      rintro ⟨fault, herror⟩
      rw [hplace] at herror
      cases herror

/-! ## Any number of demands -/

theorem config_meetAll (x : Exchange) (demands : List Demand) :
    (x.meetAll demands).config = x.config := by
  induction demands generalizing x with
  | nil => rfl
  | cons demand demands ih => exact (ih (x.meet demand)).trans (config_meet x demand)

theorem inBounds_meetAll (hcheck : Config.checkPool x.config.pool = .ok ()) (h : x.InBounds)
    (demands : List Demand) : (x.meetAll demands).InBounds := by
  induction demands generalizing x with
  | nil => exact h
  | cons demand demands ih =>
      exact ih (by rw [config_meet]; exact hcheck) (inBounds_meet hcheck h demand)

theorem loads_new (config : Config) (services : Services) (now : Moment) :
    (new config services now).loads = List.replicate config.pool.initialShards 0 := by
  show ((List.range config.pool.initialShards).map fun id => Shard.new id config 0).map _ = _
  rw [List.map_map]
  exact (List.map_const' ..).trans (congrArg (List.replicate · 0) List.length_range)

theorem size_new (config : Config) (services : Services) (now : Moment) :
    (new config services now).size = config.pool.initialShards := by
  rw [← length_loads, loads_new, List.length_replicate]

theorem inBounds_new {config : Config} (hcheck : Config.checkPool config.pool = .ok ())
    (services : Services) (now : Moment) : (new config services now).InBounds := by
  obtain ⟨-, hmax, -⟩ := Config.checkPool_eq_ok_iff.1 hcheck
  have hsize := size_new config services now
  refine ⟨numbered_new config services now, Nat.le_of_eq hsize.symm, ?_, fun _ load hload => ?_⟩
  · rw [hsize]
    exact hmax
  · rw [loads_new] at hload
    rw [List.eq_of_mem_replicate hload]
    exact Nat.zero_le _

/-- **Admission keeps to its rules whatever clients do.** A pool starts with the shards it is to
start with. After clients have come and shards have lost load in any order, its shards are within
bounds, and the next client finds what it is to find; and no demand ever takes a shard away. -/
theorem admits_of_demands {config : Config} (hcheck : Config.checkPool config.pool = .ok ())
    (services : Services) (now : Moment) (demands : List Demand) :
    let x := (new config services now).meetAll demands
    (new config services now).size = config.pool.initialShards
      ∧ x.config = config ∧ x.InBounds ∧ x.Admits
      ∧ ∀ demand, x.size ≤ (x.meet demand).size := by
  intro x
  have hconfig : x.config = config := config_meetAll _ demands
  have hcheck' : Config.checkPool x.config.pool = .ok () := hconfig ▸ hcheck
  have hbounds : x.InBounds := inBounds_meetAll hcheck (inBounds_new hcheck services now) demands
  have hadmits := admits_of_inBounds hcheck' hbounds
  refine ⟨size_new config services now, hconfig, hbounds, hadmits, fun demand => ?_⟩
  cases demand with
  | seat =>
      rw [meet, hadmits.size]
      split
      · exact Nat.le_succ _
      · exact Nat.le_refl _
  | release shard => exact Nat.le_of_eq (x.size_mapShard shard _).symm

/-- Two shards at most, for two clients each. -/
def scarce : Config :=
  { pool := { initialShards := 1, maxShards := 2, loadThreshold := 2, rejectWhenSaturated := true } }

/-- Four clients find a place and the fifth does not; then one leaves, and the next one takes its
place. -/
def scramble : Exchange :=
  (new scarce .inMemory 0).meetAll
    [.seat, .seat, .seat, .seat, .seat, .release 0, .seat]

/-- Both shards are taken again, so the next client is refused. -/
theorem admits_of_demands_scramble : Config.checkPool scarce.pool = .ok ()
    ∧ scramble.InBounds ∧ scramble.loads = [2, 2]
    ∧ scramble.place = (.error (.poolExhausted 2 2), scramble) := by
  have hcheck : Config.checkPool scarce.pool = .ok () := rfl
  have hrules := admits_of_demands hcheck .inMemory 0
    [.seat, .seat, .seat, .seat, .seat, .release 0, .seat]
  have hfull : scramble.Full := ⟨rfl, rfl, by decide⟩
  exact ⟨hcheck, hrules.2.2.1, rfl, hrules.2.2.2.1.refused hfull⟩

end Exchange

end Switchboard
