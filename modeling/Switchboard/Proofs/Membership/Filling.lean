import Switchboard.Proofs.Membership.Admission

/-!
# How a pool fills up

While clients only come, the loads of a new pool are told by how many came. The first ones go round
the shards there are; when all of these have reached the threshold the next shard is added, and
filled before there is another; and when there are as many as there may be, clients go round again,
or are refused.

The loads after so many clients are `PoolSettings.spread`, and one more client makes them the loads
after one more: `takes_spread` has a case for each of the three phases. Everything about
an exchange follows by induction on the number of clients (`loads_crowded`).
-/

namespace Switchboard

namespace PoolSettings

/-- The number of shards when so many clients are in: as many as they fill, within bounds. -/
def sizeFor (s : PoolSettings) (clients : Nat) : Nat :=
  max s.initialShards (min s.maxShards ((clients + s.loadThreshold - 1) / s.loadThreshold))

/-- The load of a shard when so many clients are in. -/
def share (s : PoolSettings) (clients shard : Nat) : Nat :=
  if clients ≤ s.initialShards * s.loadThreshold then
    clients / s.initialShards + if shard < clients % s.initialShards then 1 else 0
  else if clients ≤ s.maxShards * s.loadThreshold then
    if shard + 1 < s.sizeFor clients then s.loadThreshold
    else clients - s.loadThreshold * (s.sizeFor clients - 1)
  else clients / s.maxShards + if shard < clients % s.maxShards then 1 else 0

/-- The loads of all shards when so many clients are in. -/
def spread (s : PoolSettings) (clients : Nat) : List Nat :=
  (List.range (s.sizeFor clients)).map (s.share clients)

/-- How many of so many clients are admitted. -/
def seats (s : PoolSettings) (clients : Nat) : Nat :=
  if s.rejectWhenSaturated then min clients (s.maxShards * s.loadThreshold) else clients

/-- The loads among which a client is looked for a place. -/
def room (s : PoolSettings) (loads : List Nat) : List Nat :=
  if (∀ load ∈ loads, s.loadThreshold ≤ load) ∧ loads.length < s.maxShards then loads ++ [0]
  else loads

end PoolSettings

/-! ## Loads that are spread evenly -/

/-- Loads of which some at the front are one more than the others. -/
def levelled (shards each more : Nat) : List Nat :=
  (List.range shards).map fun shard => each + if shard < more then 1 else 0

section Levelled

variable {shards each more : Nat}

theorem getElem?_levelled {place load : Nat} (h : (levelled shards each more)[place]? = some load) :
    place < shards ∧ load = each + if place < more then 1 else 0 := by
  rw [levelled, List.getElem?_map] at h
  obtain ⟨n, hn, rfl⟩ := Option.map_eq_some_iff.1 h
  obtain ⟨hlt, heq⟩ := List.getElem?_eq_some_iff.1 hn
  rw [List.length_range] at hlt
  rw [List.getElem_range] at heq
  exact ⟨hlt, by rw [heq]⟩

theorem levelled_full : levelled shards each shards = levelled shards (each + 1) 0 := by
  refine List.map_congr_left fun shard hshard => ?_
  rw [if_pos (List.mem_range.1 hshard), if_neg (Nat.not_lt_zero _)]

theorem levelled_zero (shards each : Nat) : levelled shards each 0 = List.replicate shards each := by
  refine List.eq_replicate_iff.2 ⟨by rw [levelled, List.length_map, List.length_range], ?_⟩
  intro load hload
  obtain ⟨shard, -, rfl⟩ := List.mem_map.1 hload
  rw [if_neg (Nat.not_lt_zero _), Nat.add_zero]

/-- The first that is not yet one more has the least. -/
theorem isLightest_levelled (h : more < shards) : IsLightest (levelled shards each more) more := by
  refine ⟨each, ?_, fun other load hload => ?_⟩
  · rw [levelled, List.getElem?_map, List.getElem?_range h]
    exact congrArg some (by dsimp only; rw [if_neg (Nat.lt_irrefl _), Nat.add_zero])
  · obtain ⟨-, rfl⟩ := getElem?_levelled hload
    split
    · exact ⟨Nat.le_succ _, fun _ => Nat.lt_succ_self _⟩
    · exact ⟨Nat.le_refl _, fun hlt => absurd hlt ‹_›⟩

theorem modify_levelled (shards each more : Nat) :
    (levelled shards each more).modify more (· + 1) = levelled shards each (more + 1) := by
  refine List.ext_getElem? fun n => ?_
  rw [levelled, levelled, List.getElem?_modify, List.getElem?_map, List.getElem?_map]
  by_cases hn : n < shards
  · rw [List.getElem?_range hn]
    refine congrArg some ?_
    dsimp only [id]
    by_cases hmore : more = n
    · rw [if_pos hmore, if_neg (by omega), if_pos (by omega)]
    · rw [if_neg hmore]
      by_cases hlt : n < more
      · rw [if_pos hlt, if_pos (by omega)]
      · rw [if_neg hlt, if_neg (by omega)]
  · rw [List.getElem?_eq_none (by rw [List.length_range]; omega)]
    rfl

/-- Dividing leaves such loads, also when nothing is left over and all have one more. -/
theorem levelled_eq {clients : Nat} (hshards : 0 < shards) (hmore : more ≤ shards)
    (h : clients = shards * each + more) :
    levelled shards (clients / shards) (clients % shards) = levelled shards each more := by
  subst h
  rcases Nat.lt_or_eq_of_le hmore with hlt | rfl
  · rw [Nat.mul_add_div hshards, Nat.mul_add_mod, Nat.div_eq_of_lt hlt, Nat.mod_eq_of_lt hlt,
      Nat.add_zero]
  · rw [levelled_full, ← Nat.mul_succ, Nat.mul_div_cancel_left _ hshards, Nat.mul_mod_right]

end Levelled

/-! ## The three phases -/

namespace PoolSettings

variable {s : PoolSettings} {n : Nat}

section Bounds

variable (hinitial : 1 ≤ s.initialShards) (hmax : s.initialShards ≤ s.maxShards)
  (hthreshold : 1 ≤ s.loadThreshold)

include hthreshold in
theorem ceil_le_iff {shards : Nat} :
    (n + s.loadThreshold - 1) / s.loadThreshold ≤ shards ↔ n ≤ shards * s.loadThreshold := by
  rw [← Nat.lt_succ_iff, Nat.div_lt_iff_lt_mul hthreshold, Nat.succ_mul]
  omega

include hthreshold in
theorem lt_ceil_iff {shards : Nat} :
    shards < (n + s.loadThreshold - 1) / s.loadThreshold ↔ shards * s.loadThreshold < n := by
  rw [← Nat.not_le, ceil_le_iff hthreshold, Nat.not_le]

include hthreshold in
/-- At first clients go round the shards that there are from the beginning. -/
theorem spread_of_le (h : n ≤ s.initialShards * s.loadThreshold) :
    s.spread n = levelled s.initialShards (n / s.initialShards) (n % s.initialShards) := by
  have hsize : s.sizeFor n = s.initialShards := by
    have hceil := (ceil_le_iff hthreshold).2 h
    rw [sizeFor]
    omega
  rw [spread, hsize, levelled]
  exact List.map_congr_left fun shard _ => if_pos h

include hthreshold in
/-- Then every shard but the last one is full. -/
theorem spread_of_filling {full last : Nat} (hfull : s.initialShards ≤ full)
    (hless : full < s.maxShards) (hlast : 0 < last) (hle : last ≤ s.loadThreshold) :
    s.spread (full * s.loadThreshold + last) = List.replicate full s.loadThreshold ++ [last] := by
  have habove : s.initialShards * s.loadThreshold < full * s.loadThreshold + last := by
    have := Nat.mul_le_mul_right s.loadThreshold hfull
    omega
  have hnext : full * s.loadThreshold + last ≤ (full + 1) * s.loadThreshold := by
    rw [Nat.succ_mul]
    omega
  have hbelow : full * s.loadThreshold + last ≤ s.maxShards * s.loadThreshold :=
    Nat.le_trans hnext (Nat.mul_le_mul_right _ hless)
  have hsize : s.sizeFor (full * s.loadThreshold + last) = full + 1 := by
    have hle := (ceil_le_iff hthreshold).2 hnext
    have hlt := (lt_ceil_iff hthreshold).2 (Nat.lt_add_of_pos_right (n := full * _) hlast)
    rw [sizeFor]
    omega
  rw [spread, hsize, List.range_succ, List.map_append]
  congr 1
  · refine List.eq_replicate_iff.2 ⟨by simp, fun load hload => ?_⟩
    obtain ⟨shard, hshard, rfl⟩ := List.mem_map.1 hload
    rw [share, if_neg (Nat.not_le.2 habove), if_pos hbelow, hsize,
      if_pos (Nat.succ_lt_succ (List.mem_range.1 hshard))]
  · rw [List.map_singleton, share, if_neg (Nat.not_le.2 habove), if_pos hbelow, hsize,
      if_neg (Nat.lt_irrefl _), Nat.add_sub_cancel, Nat.mul_comm, Nat.add_sub_cancel_left]

include hinitial hthreshold in
/-- When the last of some shards is full, all of them are. -/
theorem spread_of_full {full : Nat} (hfull : s.initialShards ≤ full) (hmost : full ≤ s.maxShards) :
    s.spread (full * s.loadThreshold) = List.replicate full s.loadThreshold := by
  rcases Nat.lt_or_eq_of_le hfull with hlt | rfl
  · obtain ⟨before, rfl⟩ := Nat.exists_eq_add_one_of_ne_zero (Nat.ne_of_gt (Nat.lt_of_le_of_lt
      (Nat.zero_le _) hlt))
    rw [Nat.succ_mul, spread_of_filling hthreshold (Nat.le_of_lt_succ hlt) hmost
      hthreshold (Nat.le_refl _)]
    exact List.replicate_succ'.symm
  · rw [spread_of_le hthreshold (Nat.le_refl _), ← levelled_zero]
    exact levelled_eq hinitial (Nat.zero_le _) rfl

include hinitial hmax hthreshold in
/-- In the end clients go round all shards that there may be. -/
theorem spread_of_ge (h : s.maxShards * s.loadThreshold ≤ n) :
    s.spread n = levelled s.maxShards (n / s.maxShards) (n % s.maxShards) := by
  rcases Nat.lt_or_eq_of_le h with hlt | rfl
  · have hinit : s.initialShards * s.loadThreshold < n :=
      Nat.lt_of_le_of_lt (Nat.mul_le_mul_right _ hmax) hlt
    have hsize : s.sizeFor n = s.maxShards := by
      have hceil := (lt_ceil_iff hthreshold).2 hlt
      rw [sizeFor]
      omega
    rw [spread, hsize, levelled]
    refine List.map_congr_left fun shard _ => ?_
    rw [share, if_neg (Nat.not_le.2 hinit), if_neg (Nat.not_le.2 hlt)]
  · rw [spread_of_full hinitial hthreshold hmax (Nat.le_refl _), ← levelled_zero]
    exact (levelled_eq (Nat.le_trans hinitial hmax) (Nat.zero_le _) rfl).symm

end Bounds

end PoolSettings

/-! ## One more client -/

/-- A shard that is not full yet comes after full ones only. -/
theorem isLightest_filling {full each last : Nat} (h : last < each) :
    IsLightest (List.replicate full each ++ [last]) full := by
  refine ⟨last, by simp, fun other load hload => ?_⟩
  rw [List.getElem?_append, List.length_replicate] at hload
  split at hload
  · obtain rfl := List.eq_of_mem_replicate (List.mem_of_getElem? hload)
    exact ⟨Nat.le_of_lt h, fun _ => h⟩
  · obtain rfl := List.mem_singleton.1 (List.mem_of_getElem? hload)
    exact ⟨Nat.le_refl _, fun hlt => absurd hlt ‹_›⟩

theorem modify_filling (full each last : Nat) :
    (List.replicate full each ++ [last]).modify full (· + 1)
      = List.replicate full each ++ [last + 1] := by
  induction full with
  | zero => rfl
  | succ full ih =>
      rw [List.replicate_succ, List.cons_append, List.modify_succ_cons, ih, List.cons_append]

/-- Going round, all shards have reached the threshold as soon as there are clients enough. -/
theorem le_levelled_iff {shards n threshold : Nat} (hshards : 0 < shards) :
    (∀ load ∈ levelled shards (n / shards) (n % shards), threshold ≤ load)
      ↔ shards * threshold ≤ n := by
  rw [Nat.mul_comm, ← Nat.le_div_iff_mul_le hshards]
  constructor
  · intro hall
    have hlightest : IsLightest (levelled shards (n / shards) (n % shards)) (n % shards) :=
      isLightest_levelled (Nat.mod_lt n hshards)
    obtain ⟨least, hleast, -⟩ := hlightest
    have hle := hall least (List.mem_of_getElem? hleast)
    obtain ⟨-, rfl⟩ := getElem?_levelled hleast
    rwa [if_neg (Nat.lt_irrefl _), Nat.add_zero] at hle
  · intro hle load hload
    obtain ⟨shard, -, rfl⟩ := List.mem_map.1 hload
    exact Nat.le_trans hle (Nat.le_add_right _ _)

namespace PoolSettings

variable {s : PoolSettings} {n : Nat}

/-- Every shard that there may be has reached the threshold. -/
def IsFull (s : PoolSettings) (loads : List Nat) : Prop :=
  (∀ load ∈ loads, s.loadThreshold ≤ load) ∧ loads.length = s.maxShards

theorem room_of_isFull {loads : List Nat} (h : s.IsFull loads) : s.room loads = loads :=
  if_neg fun hroom => Nat.ne_of_lt hroom.2 h.2

theorem room_of_lt {loads : List Nat} {load : Nat} (hmem : load ∈ loads)
    (h : load < s.loadThreshold) : s.room loads = loads ∧ ¬ s.IsFull loads :=
  ⟨if_neg fun hroom => Nat.not_le.2 h (hroom.1 load hmem),
    fun hfull => Nat.not_le.2 h (hfull.1 load hmem)⟩

/-- Where one client more goes among some loads, that changes them to others. -/
def Takes (s : PoolSettings) (loads loads' : List Nat) : Prop :=
  ∃ shard, IsLightest (s.room loads) shard ∧ (s.room loads).modify shard (· + 1) = loads'

theorem takes_levelled {shards : Nat} (hshards : 0 < shards)
    (hroom : s.room (s.spread n) = levelled shards (n / shards) (n % shards))
    (hnext : s.spread (n + 1) = levelled shards ((n + 1) / shards) ((n + 1) % shards)) :
    s.Takes (s.spread n) (s.spread (n + 1)) := by
  have hmod := Nat.mod_lt n hshards
  refine ⟨n % shards, ?_, ?_⟩
  · rw [hroom]
    exact isLightest_levelled hmod
  · have hn : n + 1 = shards * (n / shards) + (n % shards + 1) := by
      rw [← Nat.add_assoc, Nat.div_add_mod]
    rw [hroom, hnext, modify_levelled, levelled_eq hshards hmod hn]

section Bounds

variable (hinitial : 1 ≤ s.initialShards) (hmax : s.initialShards ≤ s.maxShards)
  (hthreshold : 1 ≤ s.loadThreshold)

include hinitial hthreshold in
theorem takes_of_lt (h : n < s.initialShards * s.loadThreshold) :
    s.Takes (s.spread n) (s.spread (n + 1)) ∧ ¬ s.IsFull (s.spread n) := by
  have hspread := spread_of_le hthreshold (Nat.le_of_lt h)
  obtain ⟨load, hmem, hload⟩ : ∃ load ∈ s.spread n, load < s.loadThreshold := by
    have hnot := mt (le_levelled_iff (n := n) hinitial).1 (Nat.not_le.2 h)
    rw [← hspread] at hnot
    simpa only [Classical.not_forall, Nat.not_le, exists_prop] using hnot
  obtain ⟨hroom, hfull⟩ := room_of_lt hmem hload
  exact ⟨takes_levelled hinitial (hroom.trans hspread) (spread_of_le hthreshold h), hfull⟩

include hinitial hthreshold in
/-- While shards are added, the client goes to the last one, be it a new one. -/
theorem takes_filling {full last : Nat} (hfull : s.initialShards ≤ full)
    (hless : full < s.maxShards) (hlast : last < s.loadThreshold) :
    s.Takes (s.spread (full * s.loadThreshold + last))
        (s.spread (full * s.loadThreshold + last + 1))
      ∧ ¬ s.IsFull (s.spread (full * s.loadThreshold + last)) := by
  obtain ⟨hroom, hnot⟩ : s.room (s.spread (full * s.loadThreshold + last))
        = List.replicate full s.loadThreshold ++ [last]
      ∧ ¬ s.IsFull (s.spread (full * s.loadThreshold + last)) := by
    rcases Nat.eq_zero_or_pos last with rfl | hpos
    · -- all shards are full, so that there is a new one
      rw [Nat.add_zero, spread_of_full hinitial hthreshold hfull (Nat.le_of_lt hless)]
      have hall : ∀ load ∈ List.replicate full s.loadThreshold, s.loadThreshold ≤ load :=
        fun load hload => Nat.le_of_eq (List.eq_of_mem_replicate hload).symm
      have hlength := List.length_replicate (n := full) (a := s.loadThreshold)
      exact ⟨if_pos ⟨hall, hlength.symm ▸ hless⟩,
        fun h => Nat.ne_of_lt hless (hlength.symm.trans h.2)⟩
    · rw [spread_of_filling hthreshold hfull hless hpos (Nat.le_of_lt hlast)]
      exact room_of_lt (List.mem_append_right _ (List.mem_singleton_self last)) hlast
  refine ⟨⟨full, ?_, ?_⟩, hnot⟩
  · rw [hroom]
    exact isLightest_filling hlast
  · rw [hroom, modify_filling, Nat.add_assoc,
      spread_of_filling hthreshold hfull hless (Nat.succ_pos _) hlast]

include hinitial hmax hthreshold in
theorem takes_of_ge (h : s.maxShards * s.loadThreshold ≤ n) :
    s.Takes (s.spread n) (s.spread (n + 1)) ∧ s.IsFull (s.spread n) := by
  have hpos := Nat.le_trans hinitial hmax
  have hspread := spread_of_ge hinitial hmax hthreshold h
  have hfull : s.IsFull (s.spread n) := by
    rw [hspread]
    exact ⟨(le_levelled_iff hpos).2 h, by rw [levelled, List.length_map, List.length_range]⟩
  have hnext := spread_of_ge hinitial hmax hthreshold (Nat.le_succ_of_le h)
  exact ⟨takes_levelled hpos ((room_of_isFull hfull).trans hspread) hnext, hfull⟩

include hinitial hmax hthreshold in
/-- **One more client makes the loads those of one more client**, whichever phase it is, and only in
the last phase every shard that there may be is full. -/
theorem takes_spread (n : Nat) : s.Takes (s.spread n) (s.spread (n + 1))
    ∧ (s.IsFull (s.spread n) ↔ s.maxShards * s.loadThreshold ≤ n) := by
  rcases Nat.lt_or_ge n (s.maxShards * s.loadThreshold) with hlt | hge
  · obtain ⟨htakes, hnot⟩ : s.Takes (s.spread n) (s.spread (n + 1)) ∧ ¬ s.IsFull (s.spread n) := by
      rcases Nat.lt_or_ge n (s.initialShards * s.loadThreshold) with hfirst | hmore
      · exact takes_of_lt hinitial hthreshold hfirst
      · -- the shards that are full, and how many clients the last one has
        have h := takes_filling hinitial hthreshold
          ((Nat.le_div_iff_mul_le hthreshold).2 hmore) ((Nat.div_lt_iff_lt_mul hthreshold).2 hlt)
          (Nat.mod_lt n hthreshold)
        rwa [Nat.div_add_mod'] at h
    exact ⟨htakes, iff_of_false hnot (Nat.not_le.2 hlt)⟩
  · obtain ⟨htakes, hfull⟩ := takes_of_ge hinitial hmax hthreshold hge
    exact ⟨htakes, iff_of_true hfull hge⟩

include hthreshold in
theorem spread_zero : s.spread 0 = List.replicate s.initialShards 0 := by
  rw [spread_of_le hthreshold (Nat.zero_le _), Nat.zero_div, Nat.zero_mod, levelled_zero]

end Bounds

end PoolSettings

/-! ## Any number of clients -/

namespace Exchange

/-- The exchange after a number of clients have come. -/
def crowded (x : Exchange) : Nat → Exchange
  | 0 => x
  | clients + 1 => (x.crowded clients).meet .seat

/-- How many of a number of clients were admitted. -/
def admitted (x : Exchange) : Nat → Nat
  | 0 => 0
  | clients + 1 => x.admitted clients + if (x.crowded clients).place.1.isOk then 1 else 0

variable {x : Exchange}

theorem loads_extended_eq_room (x : Exchange) : x.extended.loads = x.config.pool.room x.loads := by
  have hgrows : x.Grows ↔ (∀ load ∈ x.loads, x.config.pool.loadThreshold ≤ load)
      ∧ x.loads.length < x.config.pool.maxShards := by
    rw [length_loads]
    exact Iff.rfl
  rw [loads_extended, PoolSettings.room]
  simp only [hgrows]

theorem full_iff : x.Full ↔
    x.config.pool.rejectWhenSaturated = true ∧ x.config.pool.IsFull x.loads := by
  rw [Full, PoolSettings.IsFull, length_loads]
  exact and_congr_right fun _ => and_comm

theorem crowded_eq_meetAll (x : Exchange) (clients : Nat) :
    x.crowded clients = x.meetAll (List.replicate clients .seat) := by
  induction clients with
  | zero => rfl
  | succ clients ih =>
      rw [crowded, ih, List.replicate_succ', meetAll, meetAll, List.foldl_append]
      rfl

/-- One more client, where the loads are those of so many. -/
theorem loads_meet_seat {n : Nat} (hcheck : Config.checkPool x.config.pool = .ok ())
    (h : x.InBounds) (hloads : x.loads = x.config.pool.spread n) :
    let full := x.config.pool.rejectWhenSaturated = true
      ∧ x.config.pool.maxShards * x.config.pool.loadThreshold ≤ n
    (full ∧ x.place.1.isOk = false ∧ (x.meet .seat).loads = x.config.pool.spread n) ∨
      (¬ full ∧ x.place.1.isOk = true ∧ (x.meet .seat).loads = x.config.pool.spread (n + 1)) := by
  intro full
  obtain ⟨hinitial, hmax, hthreshold⟩ := Config.checkPool_eq_ok_iff.1 hcheck
  obtain ⟨⟨shard, hshard, hnext⟩, hisFull⟩ :=
    PoolSettings.takes_spread hinitial hmax hthreshold n
  have hfull_iff : x.Full ↔ full := by rw [full_iff, hloads, hisFull]
  rw [← hfull_iff]
  have hpos : 0 < x.size := Nat.lt_of_lt_of_le hinitial h.initial
  rcases place_cases_of_size h.numbered hpos h.greatest with ⟨hfull, hplace⟩ |
    ⟨hfull, shard', hlightest, hplace⟩
  · refine Or.inl ⟨hfull, ?_⟩
    rw [meet, hplace]
    exact ⟨rfl, hloads⟩
  · refine Or.inr ⟨hfull, ?_⟩
    rw [meet, hplace]
    refine ⟨rfl, ?_⟩
    rw [loads_extended_eq_room, hloads] at hlightest
    rw [loads_charge, loads_extended_eq_room, hloads, hlightest.unique hshard, hnext]

/-- **The loads of a new pool are told by how many clients came.** -/
theorem loads_crowded {config : Config} (hinitial : 1 ≤ config.pool.initialShards)
    (hmax : config.pool.initialShards ≤ config.pool.maxShards)
    (hthreshold : 1 ≤ config.pool.loadThreshold) (services : Services) (now : Moment)
    (clients : Nat) :
    let x := new config services now
    (x.crowded clients).loads = config.pool.spread (config.pool.seats clients)
      ∧ x.admitted clients = config.pool.seats clients := by
  intro x
  have hcheck := Config.checkPool_eq_ok_iff.2 ⟨hinitial, hmax, hthreshold⟩
  induction clients with
  | zero =>
      have hseats : config.pool.seats 0 = 0 := by
        rw [PoolSettings.seats, Nat.zero_min, ite_self]
      rw [hseats, PoolSettings.spread_zero hthreshold]
      exact ⟨loads_new config services now, rfl⟩
  | succ clients ih =>
      obtain ⟨hloads, hadmitted⟩ := ih
      have hcrowded := crowded_eq_meetAll x clients
      have hconfig : (x.crowded clients).config = config := by
        rw [hcrowded]
        exact config_meetAll _ _
      have hbounds : (x.crowded clients).InBounds := by
        rw [hcrowded]
        exact inBounds_meetAll hcheck (inBounds_new hcheck services now) _
      have hnext := loads_meet_seat (hconfig ▸ hcheck) hbounds (hconfig.symm ▸ hloads)
      rw [hconfig] at hnext
      rw [crowded, admitted, hadmitted]
      rcases hnext with ⟨hfull, hrefused, hsame⟩ | ⟨hnot, hseated, hone⟩
      · -- nobody is admitted any more
        have hseats : config.pool.seats (clients + 1) = config.pool.seats clients := by
          obtain ⟨hreject, hle⟩ := hfull
          rw [PoolSettings.seats, if_pos hreject] at hle
          rw [PoolSettings.seats, PoolSettings.seats, if_pos hreject, if_pos hreject]
          omega
        rw [hseats, hrefused]
        exact ⟨hsame, rfl⟩
      · have hseats : config.pool.seats (clients + 1) = config.pool.seats clients + 1 := by
          rw [PoolSettings.seats] at hnot ⊢
          rw [PoolSettings.seats]
          split
          · next hreject =>
              rw [if_pos hreject] at hnot
              have hlt := Nat.not_le.1 fun hle => hnot ⟨hreject, hle⟩
              omega
          · rfl
        rw [hseats, hseated]
        exact ⟨hone, rfl⟩

/-- Of seven clients, four find a place at two shards that take two each. -/
theorem loads_crowded_scarce :
    (1 ≤ scarce.pool.initialShards ∧ scarce.pool.initialShards ≤ scarce.pool.maxShards
      ∧ 1 ≤ scarce.pool.loadThreshold)
    ∧ ((new scarce .inMemory 0).crowded 7).loads = [2, 2]
    ∧ (new scarce .inMemory 0).admitted 7 = 4 :=
  ⟨by decide, @loads_crowded scarce (by decide) (by decide) (by decide) .inMemory 0 7⟩

end Exchange

end Switchboard
