import Mathlib.Data.String.Basic
import Switchboard.Proofs.Routing.Handling

/-!
# Group messages

A message for a group reaches every member but its sender: a member that is connected is sent every
frame once, at whichever shard it is, and takes those it has room for; for one that is away the
message is kept. Nobody else gets anything, and what a member gets does not depend on what becomes of
the others: `groupOutcome_of_enqueue`.
-/

namespace Switchboard

namespace Groups

/-- Whoever is inserted is a member, with those who were members before. -/
theorem mem_insertSorted {a b : String} {members : List String} :
    b ∈ insertSorted a members ↔ b = a ∨ b ∈ members := by
  induction members with
  | nil => rw [insertSorted, List.mem_singleton, or_iff_left List.not_mem_nil]
  | cons c members ih =>
      rw [insertSorted]
      split
      · rw [List.mem_cons]
      · split
        · next hac =>
            -- a member that is there already is not inserted again
            subst hac
            rw [List.mem_cons]
            exact ⟨Or.inr, fun h => h.elim Or.inl id⟩
        · rw [List.mem_cons, ih, List.mem_cons]
          exact or_left_comm

/-- A member comes between those before and those after it. -/
theorem pairwise_insertSorted (a : String) {members : List String}
    (h : members.Pairwise (· < ·)) : (insertSorted a members).Pairwise (· < ·) := by
  induction members with
  | nil => exact List.pairwise_singleton _ a
  | cons c members ih =>
      obtain ⟨hc, hmembers⟩ := List.pairwise_cons.1 h
      rw [insertSorted]
      split
      · next hac =>
          refine List.pairwise_cons.2 ⟨fun b hb => ?_, h⟩
          rcases List.mem_cons.1 hb with rfl | hb
          · exact hac
          · exact lt_trans hac (hc b hb)
      · next hac =>
          split
          · exact h
          · next hne =>
              refine List.pairwise_cons.2 ⟨fun b hb => ?_, ih hmembers⟩
              -- whoever comes behind the first one came behind it before, or is the new one
              rcases mem_insertSorted.1 hb with rfl | hb
              · exact lt_of_le_of_ne (not_lt.1 hac) (Ne.symm hne)
              · exact hc b hb

/-- The members of every group are listed in ascending order. -/
def IsSorted (g : Groups) : Prop := ∀ group, (g.membersOf group).Pairwise (· < ·)

/-- Nobody is a member twice. -/
theorem IsSorted.nodup {g : Groups} (h : g.IsSorted) (group : String) :
    (g.membersOf group).Nodup := (h group).imp ne_of_lt

theorem isSorted_empty : IsSorted .empty := fun _ => .nil

theorem membersOf_insert (g : Groups) (group : String) (members : List String) (group' : String) :
    membersOf (g.insert group members) group'
      = if group' = group then members else g.membersOf group' := by
  rw [membersOf, Table.get?_insert]
  split
  · rfl
  · rfl

/-- With one more member the list is still in order. -/
theorem IsSorted.add {g : Groups} (h : g.IsSorted) (group member : String) :
    (g.add group member).IsSorted := by
  intro group'
  rw [Groups.add, membersOf_insert]
  split
  · exact pairwise_insertSorted member (h group)
  · exact h group'

end Groups

namespace Exchange

/-- A message is for a group, can be measured in eight octets, and does not need more fragments than
there may be. -/
structure ForGroup (x : Exchange) (e : Envelope) : Prop where
  recipient : e.recipient ≠ ""
  kind : e.deliveryKind = .group
  whole : e.isFragment = false
  measured : (e.completed (formatId x.issued) x.timestamp).encode.length < 256 ^ 8
  splits : e.isOversized x.config.fragment.limits = true →
    x.config.fragment.limits.required
      (e.completed (formatId x.issued) x.timestamp).encode.length
        ≤ x.config.fragment.limits.cap.toNat

/-- Whether a message for a group is for somebody: for every member but its sender. -/
def IsAddressee (x : Exchange) (e : Envelope) (identity : String) : Prop :=
  identity ∈ x.services.groups.membersOf e.recipient ∧ identity ≠ e.sender

/-- What a message for a group has come to when nothing is on its way any more. -/
structure GroupOutcome (x y : Exchange) (e : Envelope) (raw : Bytes) : Prop where
  /-- Nothing else has changed. -/
  bare : y.bare = x.bare
  /-- Whoever it is for and is connected was sent the frames of the message, each of them once, and
  has taken those it had room for, whatever became of the others. -/
  connected : ∀ shard identity session, x.IsAddressee e identity →
    x.holder? shard identity = some session →
    ∃ sent : List Bytes, sent.Perm (x.frames e raw) ∧
      (x.processors = 1 → sent = x.frames e raw) ∧
      y.mail session = (x.mail session).map (·.accept sent)
  /-- So one with room for all of them has received all of them. -/
  complete : ∀ shard identity session b, x.IsAddressee e identity →
    x.holder? shard identity = some session → x.mail session = some b →
    (x.frames e raw).length ≤ b.room →
    ∃ received : List Bytes, received.Perm (x.frames e raw) ∧
      (x.processors = 1 → received = x.frames e raw) ∧ y.mail session = some (b.add received)
  /-- Nobody else has received anything. -/
  others : ∀ session, (∀ shard identity, x.holder? shard identity = some session →
    ¬ x.IsAddressee e identity) → y.mail session = x.mail session
  /-- For whoever it is for and is away, the message was kept, and for nobody else. -/
  away : ∃ kept, y.services.offline = x.services.offline ++ kept ∧
    (∀ identity, x.IsAddressee e identity → (∀ shard, x.holder? shard identity = none) →
      e.Kept identity x.now x.issued y.issued (kept.filter (·.target = identity))) ∧
    ∀ record ∈ kept, x.IsAddressee e record.target ∧ ∀ shard, x.holder? shard record.target = none

section Group

variable {x y : Exchange} {shard : Nat} {e : Envelope} {raw : Bytes} {identity : String}

/-- The targets of a message for a group are those it is for. -/
theorem mem_targets_of_group (hkind : e.deliveryKind = .group) :
    identity ∈ x.targets e ↔ x.IsAddressee e identity := by
  rw [targets, hkind, IsAddressee]
  simp only [List.mem_filter, decide_eq_true_eq]

/-- Who is away is held at no shard. -/
theorem Orderly.mem_absent (hx : x.Orderly) {targets : List String} :
    identity ∈ x.absent targets
      ↔ identity ∈ targets ∧ ∀ shard, x.holder? shard identity = none := by
  rw [absent, List.mem_filter, Bool.not_eq_true', Bool.eq_false_iff, ne_eq, hx.isOnline_iff]
  refine and_congr_right fun _ => ⟨fun h shard => ?_, ?_⟩
  · cases hheld : x.holder? shard identity with
    | none => rfl
    | some session => exact absurd ⟨shard, session, hheld⟩ h
  · rintro h ⟨shard, session, hheld⟩
    exact Option.some_ne_none session (hheld.symm.trans (h shard))

theorem ForGroup.routable (he : x.ForGroup e) (hdecode : Envelope.decode raw = .ok e) :
    x.Routable e raw :=
  ⟨hdecode, he.recipient, fun hkind => DeliveryKind.noConfusion (he.kind.symm.trans hkind),
    he.measured⟩

/-- The plan of a message for a group. -/
theorem ForGroup.plan (he : x.ForGroup e) (raw : Bytes) :
    (x.plan e raw).targets = x.targets e ∧
      (x.targets e ≠ [] → (x.plan e raw).frames = x.frames e raw) ∧
      x.issued ≤ (x.plan e raw).issued := by
  by_cases hnobody : x.IsForNobody e
  · have hnone : x.targets e = [] := by
      rw [targets, he.kind, hnobody.2]
      rfl
    rw [plan_of_nobody hnobody, hnone]
    exact ⟨rfl, fun h => absurd rfl h, Nat.le_refl _⟩
  · have hframed : x.framed e raw = .ok (x.frames e raw) :=
      Envelope.framed_of_whole he.whole he.splits raw
    rw [plan_of_framed hnobody hframed]
    exact ⟨rfl, fun _ => rfl, e.le_drawn _ _⟩

/-- What is due to the members does not depend on whether there are any. -/
theorem ForGroup.due (he : x.ForGroup e) (raw : Bytes) :
    x.due (x.plan e raw).frames (x.plan e raw).targets = x.due (x.frames e raw) (x.targets e) := by
  obtain ⟨htargets, hframes, -⟩ := he.plan raw
  by_cases hnone : x.targets e = []
  · rw [htargets, hnone]
    rfl
  · rw [htargets, hframes hnone]

/-- What a message for a group has come to once it is routed. -/
def GroupSent (x : Exchange) (e : Envelope) (raw : Bytes) (y : Exchange) : Prop :=
  ∃ kept n lanes, e.KeptFor (x.absent (x.targets e)) x.now x.issued n kept ∧
    x.Underway (x.due (x.frames e raw) (x.targets e)) (x.services.offline ++ kept) n lanes y.view

/-- **Routing a message for a group sends it to every member, or keeps it.** -/
theorem handling_group (hx : x.Orderly) (hoff : x.services.publishing = .off) (he : x.ForGroup e)
    (hdecode : Envelope.decode raw = .ok e)
    (hroom : x.HasRoom shard (x.due (x.frames e raw) (x.targets e))) :
    Handling x shard (inbound e raw) Action.handles (fun _ => True) (x.GroupSent e raw) AtRest := by
  have hroutable := he.routable hdecode
  have hdue := he.due raw
  have htakes : x.Takes (x.due (x.frames e raw) (x.targets e)) := hdue ▸ takes_plan hroutable
  obtain ⟨htargets, -, hissued⟩ := he.plan raw
  refine
    { caughtUp := caughtUp_of_off hoff, handles := fun _ h => h, take := rfl, finish := rfl
      sweep := fun _ _ _ _ => trivial, route := ?_, act := ?_, settles := ?_
      atRest := fun _ h => h }
  · intro y hy _
    obtain ⟨k, hk, hunderway, -⟩ := underway_routeTask hy hx hroutable (.inl (mute_of_off hoff))
      (by rw [hdue]; exact hroom)
    have hnodup : (x.absent (x.targets e)).Nodup := (nodup_targets hx e).filter _
    -- nobody is a target twice, so a record is kept once for each who is away
    obtain ⟨kept, hkept, -, hoffline⟩ := Stock.keptFor_keepAll he.whole x.now hnodup
      { offline := x.services.offline, issued := (x.plan e raw).issued
        assembler := y.assembler? shard, copy := .unresolved }
    rw [htargets] at hk
    rw [← hk] at hkept hoffline
    rw [hdue, hoffline] at hunderway
    exact ⟨kept, k.issued, _, hkept.mono hissued, hunderway⟩
  · rintro y action haction ⟨kept, n, lanes, hkept, hunderway⟩
    obtain ⟨⟨lanes', hunderway'⟩, -⟩ := underway_act hx (caughtUp_of_off hoff) htakes hunderway
      haction
    exact ⟨kept, n, lanes', hkept, hunderway'⟩
  · rintro y ⟨kept, n, lanes, -, hunderway⟩
    obtain ⟨more, hmore, hrest⟩ := underway_settles hx htakes hunderway
    exact ⟨more, fun action h => Action.handles_of_serves (hmore action h), hrest⟩

/-- When all frames have arrived, every member has what is due to it. -/
theorem groupOutcome_of_sent (hx : x.Orderly) (he : x.ForGroup e) (h : x.GroupSent e raw y)
    (hrest : y.AtRest) : GroupOutcome x y e raw := by
  obtain ⟨kept, n, lanes, hkept, hunderway⟩ := h
  have hconnected : ∀ shard identity session, x.IsAddressee e identity →
      x.holder? shard identity = some session →
      ∃ sent : List Bytes, sent.Perm (x.frames e raw) ∧
        (x.processors = 1 → sent = x.frames e raw) ∧
        y.mail session = (x.mail session).map (·.accept sent) := by
    intro shard identity session haddressee hheld
    obtain ⟨hperm, horder⟩ := hunderway.arrived hrest shard
    -- what is due to a member at its shard is the frames of the message
    have hdue := filter_due (nodup_targets hx e) hheld (x.frames e raw)
    rw [if_pos ((mem_targets_of_group he.kind).2 haddressee)] at hdue
    refine ⟨(lanes shard).received identity, ?_, fun hone => ?_, hunderway.mail.held hheld⟩
    · rw [← hdue]
      exact (hperm.filter _).map _
    · rw [← hdue, Lane.received, horder hone]
  refine ⟨hunderway.bare, hconnected, ?_, ?_, kept, hunderway.offline, ?_, ?_⟩
  · intro shard identity session b haddressee hheld hb hroom
    obtain ⟨sent, hperm, horder, hmail⟩ := hconnected shard identity session haddressee hheld
    refine ⟨sent, hperm, horder, ?_⟩
    rw [hmail, hb, Option.map_some, Mailbox.accept_of_room]
    rw [hperm.length_eq]
    exact hroom
  · intro session hnot
    by_cases hheld : ∃ shard identity, x.holder? shard identity = some session
    · -- whoever it holds is not meant, so nothing is due for it
      obtain ⟨shard, identity, hheld⟩ := hheld
      have hdue := filter_due (nodup_targets hx e) hheld (x.frames e raw)
      rw [if_neg fun h => hnot shard identity hheld ((mem_targets_of_group he.kind).1 h)] at hdue
      obtain ⟨hperm, -⟩ := hunderway.arrived hrest shard
      have hfiltered := (hperm.filter fun h => decide (h.target = identity)).map Handover.frame
      rw [hdue] at hfiltered
      have hreceived : (lanes shard).received identity = [] := List.perm_nil.1 hfiltered
      refine (hunderway.mail.held hheld).trans ?_
      rw [hreceived]
      simp only [Mailbox.accept_nil, Option.map_id']
    · exact hunderway.mail.others fun shard identity h => hheld ⟨shard, identity, h⟩
  · intro identity haddressee haway
    have hmem := hx.mem_absent.2 ⟨(mem_targets_of_group he.kind).2 haddressee, haway⟩
    have hissued : y.issued = n := hunderway.issued
    rw [hissued]
    exact hkept.each identity hmem
  · intro record hrecord
    obtain ⟨hmem, haway⟩ := hx.mem_absent.1 (hkept.only record hrecord)
    exact ⟨(mem_targets_of_group he.kind).1 hmem, haway⟩

/-- **A message for a group reaches every member but its sender, whatever becomes of the others.**
It may come in at any shard, the members may be at any shards, and their queues may be full:
whatever processors and coordinators do, and in whatever order, the message can be brought to its
end, and it always comes to the same. -/
theorem groupOutcome_of_enqueue (hx : x.Orderly) (hoff : x.services.publishing = .off)
    (he : x.ForGroup e) (hdecode : Envelope.decode raw = .ok e)
    (hroom : x.HasRoom shard (x.due (x.frames e raw) (x.targets e))) :
    ∃ y, x.enqueue shard raw none = (.ok (), y) ∧ x.enqueueEnvelope shard e raw = (.ok (), y) ∧
      ∀ history : List Action, (∀ action ∈ history, action.handles = true) →
        (∃ more : List Action, (∀ action ∈ more, action.handles = true) ∧
          ((y.run history).run more).AtRest) ∧
        ((y.run history).AtRest → GroupOutcome x (y.run history) e raw) := by
  obtain ⟨y, henqueue, henvelope, hy⟩ := (handling_group hx hoff he hdecode hroom).outcome hx
    trivial hroom.own hdecode
  refine ⟨y, henqueue, henvelope, fun history hhistory => ?_⟩
  obtain ⟨hsettles, hsent⟩ := hy history hhistory
  exact ⟨hsettles, fun hrest => groupOutcome_of_sent hx he (hsent hrest) hrest⟩

end Group

end Exchange

/-- Whoever comes and goes, registries, index and presence service agree, and whoever holds an
identity is the one connection of that identity. -/
theorem Lobby.Refines.agrees_owned {w : Lobby} {m : Ledger} (h : w.Refines m) :
    (∀ identity, w.exchange.roster.Agrees identity) ∧ w.exchange.Owned := by
  refine ⟨h.reads.agrees, fun shard identity session hheld => ?_⟩
  obtain ⟨-, c, hc, hidentity, hsession⟩ := h.sound.connection (h.sound.held _ _ _ hheld)
  rw [Exchange.owner_eq hc, hidentity, hsession]

namespace Exchange

/-- Ann, Bob and Cho are the crew. -/
def crew : Groups := ((Groups.add .empty "crew" "ann").add "crew" "bob").add "crew" "cho"

/-- Two shards, with Ann's connection at the first of them and Bob's at the second. -/
def withCrew : Exchange :=
  ((Lobby.start (.new { pool.initialShards := 2, pool.maxShards := 2 }
    { Services.inMemory with groups := crew } 0)).run
    [.accept "ann" none 8, .register 0, .accept "bob" none 8, .register 1]).exchange

theorem orderly_withCrew : withCrew.Orderly := by
  have hvacant : (Exchange.new { pool.initialShards := 2, pool.maxShards := 2 }
    { Services.inMemory with groups := crew } 0).Vacant := vacant_new _ _ rfl rfl
  have hpermits : (Lobby.start (.new { pool.initialShards := 2, pool.maxShards := 2 }
      { Services.inMemory with groups := crew } 0)).Permits
      [.accept "ann" none 8, .register 0, .accept "bob" none 8, .register 1] := by decide
  obtain ⟨⟨m, hm⟩, -⟩ := Lobby.refines_run_some (Lobby.refines_start hvacant) hpermits
  obtain ⟨hagrees, howned⟩ := hm.agrees_owned
  refine ⟨rfl, rfl, ?_, ?_, rfl, hagrees, howned, ?_⟩
  · intro shard s hs
    rcases shard with _ | _ | shard
    · obtain rfl := Option.some.inj hs
      rfl
    · obtain rfl := Option.some.inj hs
      rfl
    · exact absurd hs.symm (Option.some_ne_none _)
  · intro shard
    rcases shard with _ | _ | shard
    · rfl
    · rfl
    · rfl
  · exact (((Groups.isSorted_empty.add "crew" "ann").add "crew" "bob").add "crew" "cho").nodup

/-- A short message from Ann to the crew. -/
def toCrew : Envelope := { Envelope.group "ann" "crew" .text "hello" 1 with messageId := "m1" }

theorem isOversized_toCrew :
    ¬ toCrew.isOversized withCrew.config.fragment.limits = true := by decide

theorem frames_toCrew : withCrew.frames toCrew toCrew.encode = [toCrew.encode] := by
  rw [frames, Envelope.frames, if_neg isOversized_toCrew]

theorem targets_toCrew : withCrew.targets toCrew = ["bob", "cho"] := by decide

theorem fits_toCrew : toCrew.encode.length < 256 ^ 8 := by
  rw [Envelope.length_encode]
  decide

theorem forGroup_toCrew : withCrew.ForGroup toCrew :=
  ⟨by decide, rfl, rfl, fits_toCrew, fun h => absurd h isOversized_toCrew⟩

theorem decode_toCrew : Envelope.decode toCrew.encode = .ok toCrew :=
  Envelope.decode_encode (Envelope.fits_of_length fits_toCrew)

theorem hasRoom_toCrew : withCrew.HasRoom 0
    (withCrew.due (withCrew.frames toCrew toCrew.encode) (withCrew.targets toCrew)) := by
  rw [frames_toCrew, targets_toCrew]
  refine ⟨⟨_, rfl, by decide⟩, ?_, ?_⟩
  · intro shard hne hdue
    rcases shard with _ | _ | shard
    · exact absurd rfl hne
    · exact ⟨_, rfl, by decide⟩
    · exact absurd rfl hdue
  · intro shard hne hdue
    rcases shard with _ | _ | shard
    · exact absurd rfl hne
    · exact ⟨_, rfl, by decide⟩
    · exact absurd rfl hdue

theorem groupOutcome_of_enqueue_crew : ∃ y history,
    withCrew.enqueue 0 toCrew.encode none = (.ok (), y) ∧ (y.run history).AtRest ∧
      GroupOutcome withCrew (y.run history) toCrew toCrew.encode := by
  obtain ⟨y, henqueue, -, hy⟩ := groupOutcome_of_enqueue orderly_withCrew rfl forGroup_toCrew
    decode_toCrew hasRoom_toCrew
  obtain ⟨⟨more, hmore, hrest⟩, -⟩ := hy [] fun action h => absurd h List.not_mem_nil
  exact ⟨y, more, henqueue, hrest, (hy more hmore).2 hrest⟩

end Exchange

end Switchboard
