import Switchboard.Proofs.Fragment.Reassembly

/-!
# What an assembler says is so

Whatever an assembler is given, fragments of anybody's making among it, what it keeps of a message
are the latest shares that came for it since its assembly was opened, under one total and one
digest. So a message is complete only if its fragments agree on the digest of what it was read from.

The fragments that the assembler took in are no part of it. `Archive` keeps them beside it, and the
invariant `Sound` ties the two together: an assembly is `Backed` by the fragments that were taken in
since it was opened. A fragment that is taken in leaves its assembly backed (`backed_filled`),
whether it opens one, fills a gap or writes over an earlier share, and everything else follows from
that.
-/

namespace Switchboard

namespace Assembler

/-- The share that the last fragment with an index brought. -/
def latest (fs : List Envelope) (index : UInt32) : Option Bytes :=
  (fs.reverse.find? fun f => f.fragmentIndex = index).map (·.payload)

/-- The latest share of each index below a total, joined in order. -/
def joined (fs : List Envelope) (total : UInt32) : Bytes :=
  (List.range total.toNat).flatMap fun i => (latest fs (UInt32.ofNat i)).getD []

/-- Whether the share of an envelope is kept: it is a fragment with which nothing is wrong, neither
on its own nor beside those that came before it. -/
def accepts (a : Assembler) (now : Nat) (e : Envelope) : Bool :=
  e.isFragment && (a.check e).isOk && (checkAgainst (a.assemblyFor now e) e).isOk

/-- The assembly of a fragment's message, with its share. -/
def filled (a : Assembler) (now : Nat) (e : Envelope) : Assembly :=
  (a.assemblyFor now e).add e.fragmentIndex e.payload

/-- An assembler and the fragments that it took in, by the message they are of. -/
structure Archive where
  assembler : Assembler
  taken : String → List Envelope

namespace Archive

def new (limits : FragmentLimits) : Archive where
  assembler := .new limits
  taken _ := []

/-- The fragments of a message that were taken in since its assembly was opened, in the order they
came. -/
def since (r : Archive) (id : String) : List Envelope :=
  if (r.assembler.pending.get? id).isSome then r.taken id else []

/-- The archive after an event. -/
def handle (r : Archive) (event : Event) : Archive where
  assembler := r.assembler.handle event
  taken :=
    match event with
    | .envelope now e =>
      if r.assembler.accepts now e then
        Function.update r.taken e.messageId (r.since e.messageId ++ [e])
      else r.taken
    | .sweep _ => r.taken

/-- The archive after some events. -/
def after (r : Archive) (events : List Event) : Archive := events.foldl handle r

theorem since_of_pending {r : Archive} {id : String} {assembly : Assembly}
    (h : r.assembler.pending.get? id = some assembly) : r.since id = r.taken id := by
  rw [since, h, Option.isSome_some, if_pos rfl]

/-- Keeping the fragments does not change what the assembler does. -/
theorem assembler_after (r : Archive) (events : List Event) :
    (r.after events).assembler = r.assembler.after events := by
  induction events generalizing r with
  | nil => rfl
  | cons event events ih => exact ih (r.handle event)

end Archive

/-! ## What the checks say -/

variable {a : Assembler} {now : Nat} {e : Envelope} {limits : FragmentLimits} {id : String}
  {fs : List Envelope} {assembly : Assembly}

theorem check_eq_ok_iff : a.check e = .ok () ↔ e.messageId ≠ ""
    ∧ e.fragmentTotal ≠ 0 ∧ e.fragmentTotal ≤ a.limits.cap
    ∧ e.fragmentIndex < e.fragmentTotal := by
  rw [check]
  split
  · simp [*]
  · split
    · rename_i htotal
      simp only [reduceCtorEq, false_iff]
      rintro ⟨-, hzero, hcap, -⟩
      exact htotal.elim hzero (UInt32.not_lt.2 hcap)
    · rename_i htotal
      rw [not_or, UInt32.not_lt] at htotal
      split
      · simp only [reduceCtorEq, false_iff]
        rintro ⟨-, -, -, hindex⟩
        exact UInt32.not_le.2 hindex ‹_›
      · exact iff_of_true rfl ⟨‹_›, htotal.1, htotal.2, UInt32.not_le.1 ‹_›⟩

theorem checkAgainst_eq_ok_iff : checkAgainst assembly e = .ok ()
    ↔ assembly.total = e.fragmentTotal ∧ assembly.checksum = e.checksum := by
  rw [checkAgainst]
  split
  · simp [*]
  · split
    · simp [*]
    · exact iff_of_true rfl ⟨not_not.1 ‹_›, not_not.1 ‹_›⟩

theorem isOk_iff {x : Except FragmentFault Unit} : x.isOk = true ↔ x = .ok () := by
  cases x with
  | error fault => exact iff_of_false Bool.false_ne_true (by simp)
  | ok u => exact iff_of_true rfl rfl

theorem accepts_iff : a.accepts now e = true ↔ e.isFragment = true ∧ a.check e = .ok ()
    ∧ checkAgainst (a.assemblyFor now e) e = .ok () := by
  rw [accepts, Bool.and_eq_true, Bool.and_eq_true, isOk_iff, isOk_iff, and_assoc]

/-- What is not taken in leaves the assembler as it is. -/
theorem receive_of_not_accepts (h : a.accepts now e = false) : (a.receive now e).2 = a := by
  rw [receive]
  split
  · rfl
  · rename_i hfragment
    split
    · rfl
    · dsimp only
      split
      · rfl
      · exfalso
        rw [← Bool.not_eq_true, accepts_iff] at h
        exact h ⟨by simpa using hfragment, ‹_›, ‹_›⟩

/-- A fragment that is taken in fills its assembly, and the assembly goes when it is full. -/
theorem receive_of_accepts (h : a.accepts now e = true) : a.receive now e =
    if (a.filled now e).received = (a.filled now e).total.toNat then
      ((((a.filled now e).message e.messageId).map Outcome.complete),
        { a with pending := a.pending.erase e.messageId })
    else (.ok (.pending (a.filled now e).received (a.filled now e).total),
      { a with pending := a.pending.insert e.messageId (a.filled now e) }) := by
  obtain ⟨hfragment, hcheck, hagainst⟩ := accepts_iff.1 h
  rw [receive]
  simp only [hfragment, Bool.not_true, Bool.false_eq_true, if_false, hcheck, hagainst]
  rw [← filled]
  split
  · cases (a.filled now e).message e.messageId <;> rfl
  · rfl

/-- **Why an envelope is refused.** Something is wrong with it, on its own or beside those that came
before it, or it fills its assembly and the message cannot be read. -/
theorem receive_error_cases {fault : FragmentFault} (h : (a.receive now e).1 = .error fault) :
    (a.accepts now e = false ∧
      (a.check e = .error fault ∨ checkAgainst (a.assemblyFor now e) e = .error fault)) ∨
    (a.accepts now e = true ∧ (a.filled now e).received = (a.filled now e).total.toNat ∧
      (a.filled now e).message e.messageId = .error fault) := by
  by_cases haccepts : a.accepts now e = true
  · refine Or.inr ⟨haccepts, ?_⟩
    rw [receive_of_accepts haccepts] at h
    split at h
    · next hfull =>
        refine ⟨hfull, ?_⟩
        cases hmessage : (a.filled now e).message e.messageId with
        | error fault' => rw [hmessage] at h; cases h; rfl
        | ok message => rw [hmessage] at h; cases h
    · cases h
  · refine Or.inl ⟨Bool.eq_false_iff.2 haccepts, ?_⟩
    rw [accepts_iff] at haccepts
    rw [receive] at h
    cases hfragment : e.isFragment with
    | false => rw [hfragment] at h; cases h
    | true =>
        simp only [hfragment, Bool.not_true, Bool.false_eq_true, if_false] at h
        split at h
        · next hcheck => cases h; exact Or.inl hcheck
        · split at h
          · next hagainst => cases h; exact Or.inr hagainst
          · exact absurd ⟨hfragment, ‹_›, ‹_›⟩ haccepts

/-! ## Assemblies and the fragments behind them -/

theorem latest_append (fs : List Envelope) (e : Envelope) (index : UInt32) :
    latest (fs ++ [e]) index
      = if index = e.fragmentIndex then some e.payload else latest fs index := by
  rw [latest, List.reverse_append, List.reverse_singleton, List.singleton_append, List.find?_cons]
  by_cases h : e.fragmentIndex = index
  · simp [h]
  · simp [h, Ne.symm h, latest]

theorem mem_of_latest {index : UInt32} {share : Bytes} (h : latest fs index = some share) :
    ∃ f ∈ fs, f.fragmentIndex = index ∧ f.payload = share := by
  obtain ⟨f, hf, hshare⟩ := Option.map_eq_some_iff.1 h
  exact ⟨f, List.mem_reverse.1 (List.mem_of_find?_eq_some hf),
    by simpa using List.find?_some hf, hshare⟩

/-- Fragments of a message agree with an assembly, and its shares are the latest of theirs. -/
structure Backed (id : String) (fs : List Envelope) (assembly : Assembly) : Prop where
  /-- They are fragments of this message. -/
  message : ∀ f ∈ fs, f.isFragment = true ∧ f.messageId = id
  total : ∀ f ∈ fs, f.fragmentTotal = assembly.total
  checksum : ∀ f ∈ fs, f.checksum = assembly.checksum
  index : ∀ f ∈ fs, f.fragmentIndex < assembly.total
  parts : ∀ index, assembly.parts.get? index = latest fs index

/-- An assembly that is pending under some limits has a share at least, lacks one at least, and is
`Backed`. -/
structure Pending (limits : FragmentLimits) (id : String) (fs : List Envelope)
    (assembly : Assembly) : Prop where
  named : id ≠ ""
  started : 1 ≤ assembly.received
  lacking : assembly.received < assembly.total.toNat
  cap : assembly.total ≤ limits.cap
  places : ∀ index, (assembly.parts.get? index).isSome → index < assembly.total
  backed : Backed id fs assembly

/-- Every pending assembly is backed by the fragments that were taken in since it was opened. -/
def Sound (limits : FragmentLimits) (r : Archive) : Prop :=
  r.assembler.limits = limits ∧ ∀ id assembly, r.assembler.pending.get? id = some assembly →
    Pending limits id (r.since id) assembly

/-- The places of an assembly's shares. -/
theorem index_of_backed (h : Backed id fs assembly) {index : UInt32}
    (hindex : (assembly.parts.get? index).isSome) : index < assembly.total := by
  obtain ⟨share, hshare⟩ := Option.isSome_iff_exists.1 hindex
  rw [h.parts] at hshare
  obtain ⟨f, hf, rfl, -⟩ := mem_of_latest hshare
  exact h.index f hf

theorem received_eq_card (assembly : Assembly) :
    assembly.received = assembly.parts.keys.toFinset.card :=
  Table.size_eq_card fun index => by rw [List.mem_toFinset, Table.mem_keys_iff]

theorem range_of_backed (h : Backed id fs assembly) :
    ∀ index ∈ assembly.parts.keys.toFinset, index.toNat < assembly.total.toNat := by
  intro index hindex
  rw [List.mem_toFinset, Table.mem_keys_iff] at hindex
  exact UInt32.lt_iff_toNat_lt.1 (index_of_backed h hindex)

/-- There are no more shares than places. -/
theorem received_le_total (h : Backed id fs assembly) :
    assembly.received ≤ assembly.total.toNat := by
  rw [received_eq_card, ← Finset.card_range assembly.total.toNat]
  refine Finset.card_le_card_of_injOn UInt32.toNat ?_ fun i _ j _ hij => UInt32.toNat_inj.1 hij
  intro index hindex
  exact Finset.mem_coe.2 (Finset.mem_range.2 (range_of_backed h index hindex))

/-- With as many shares as places, there is one for each place. -/
theorem latest_of_full (h : Backed id fs assembly)
    (hfull : assembly.received = assembly.total.toNat) {i : Nat} (hi : i < assembly.total.toNat) :
    (latest fs (UInt32.ofNat i)).isSome := by
  have hmem := mem_of_card_eq assembly.total.toNat_lt (range_of_backed h)
    ((received_eq_card assembly).symm.trans hfull) hi
  rwa [List.mem_toFinset, Table.mem_keys_iff, h.parts] at hmem

theorem octets_of_backed (h : Backed id fs assembly) :
    assembly.octets = joined fs assembly.total := by
  simp only [Assembly.octets, joined, h.parts]

/-- The fragments so far back the assembly that a fragment finds, be it a new one. -/
theorem backed_assemblyFor {r : Archive} (h : Sound limits r) (now : Nat) (e : Envelope) :
    Backed e.messageId (r.since e.messageId) (r.assembler.assemblyFor now e) := by
  rw [assemblyFor]
  cases hget : r.assembler.pending.get? e.messageId with
  | none =>
      rw [Archive.since, hget, Option.getD_none]
      exact ⟨fun _ h => absurd h List.not_mem_nil, fun _ h => absurd h List.not_mem_nil,
        fun _ h => absurd h List.not_mem_nil, fun _ h => absurd h List.not_mem_nil, fun _ => rfl⟩
  | some assembly => exact (h.2 _ _ hget).backed

/-- **A fragment that is taken in backs its assembly, together with those before it.** -/
theorem backed_filled {r : Archive} (h : Sound limits r)
    (haccepts : r.assembler.accepts now e = true) :
    Backed e.messageId (r.since e.messageId ++ [e]) (r.assembler.filled now e) := by
  obtain ⟨hfragment, hcheck, hagainst⟩ := accepts_iff.1 haccepts
  obtain ⟨htotal, hchecksum⟩ := checkAgainst_eq_ok_iff.1 hagainst
  have hfor := backed_assemblyFor h now e
  constructor
  · intro f hf
    rcases List.mem_append.1 hf with hf | hf
    · exact hfor.message f hf
    · rw [List.mem_singleton.1 hf]
      exact ⟨hfragment, rfl⟩
  · intro f hf
    rcases List.mem_append.1 hf with hf | hf
    · exact hfor.total f hf
    · rw [List.mem_singleton.1 hf]
      exact htotal.symm
  · intro f hf
    rcases List.mem_append.1 hf with hf | hf
    · exact hfor.checksum f hf
    · rw [List.mem_singleton.1 hf]
      exact hchecksum.symm
  · intro f hf
    rcases List.mem_append.1 hf with hf | hf
    · exact hfor.index f hf
    · rw [List.mem_singleton.1 hf]
      show e.fragmentIndex < (r.assembler.assemblyFor now e).total
      rw [htotal]
      exact (check_eq_ok_iff.1 hcheck).2.2.2
  · -- its share is the latest with its index, in place of an earlier one if there was one
    intro index
    rw [filled, Assembly.add, Table.get?_insert, latest_append, hfor.parts]

theorem received_filled (a : Assembler) (now : Nat) (e : Envelope) :
    1 ≤ (a.filled now e).received := by
  have hmem : e.fragmentIndex ∈ (a.filled now e).parts.keys := by
    rw [Table.mem_keys_iff, filled, Assembly.add, Table.get?_insert, if_pos rfl]
    rfl
  rw [received_eq_card, Nat.one_le_iff_ne_zero, Finset.card_ne_zero]
  exact ⟨_, List.mem_toFinset.2 hmem⟩

/-! ## One event -/

/-- A fragment that is taken in and leaves a gap leaves a pending assembly. -/
theorem pending_filled {r : Archive} (h : Sound limits r)
    (haccepts : r.assembler.accepts now e = true)
    (hgap : (r.assembler.filled now e).received ≠ (r.assembler.filled now e).total.toNat) :
    Pending limits e.messageId (r.since e.messageId ++ [e]) (r.assembler.filled now e) := by
  have hbacked := backed_filled h haccepts
  obtain ⟨-, hcheck, -⟩ := accepts_iff.1 haccepts
  obtain ⟨hid, -, hcap, -⟩ := check_eq_ok_iff.1 hcheck
  refine ⟨hid, received_filled _ _ _, lt_of_le_of_ne (received_le_total hbacked) hgap, ?_,
    fun _ => index_of_backed hbacked, hbacked⟩
  rw [← hbacked.total e (List.mem_append_right _ (List.mem_singleton.2 rfl)), ← h.1]
  exact hcap

theorem sound_envelope {r : Archive} (h : Sound limits r) (now : Nat) (e : Envelope) :
    Sound limits (r.handle (.envelope now e)) := by
  refine ⟨(limits_receive _ _ _).trans h.1, ?_⟩
  intro id assembly hget
  rw [Archive.since_of_pending hget]
  change (r.assembler.receive now e).2.pending.get? id = some assembly at hget
  dsimp only [Archive.handle]
  by_cases haccepts : r.assembler.accepts now e = true
  · rw [if_pos haccepts]
    by_cases hid : id = e.messageId
    · -- the assembly that the fragment went to is still there, so it left a gap
      subst hid
      rw [Function.update_self]
      rw [receive_of_accepts haccepts] at hget
      split at hget
      · simp at hget
      · simp only [Table.get?_insert, if_true, Option.some.injEq] at hget
        rw [← hget]
        exact pending_filled h haccepts ‹_›
    · rw [get?_receive_of_ne (fun _ => Ne.symm hid)] at hget
      rw [Function.update_of_ne hid, ← Archive.since_of_pending hget]
      exact h.2 id assembly hget
  · rw [if_neg haccepts]
    rw [receive_of_not_accepts (by simpa using haccepts)] at hget
    rw [← Archive.since_of_pending hget]
    exact h.2 id assembly hget

theorem sound_sweep {r : Archive} (h : Sound limits r) (now : Nat) :
    Sound limits (r.handle (.sweep now)) := by
  refine ⟨h.1, ?_⟩
  intro id assembly hget
  rw [Archive.since_of_pending hget]
  change (r.assembler.sweep now).2.pending.get? id = some assembly at hget
  -- what is still there was there before
  rw [sweep, Table.get?_filter] at hget
  obtain ⟨hget, -⟩ := Option.filter_eq_some_iff.1 hget
  show Pending limits id (r.taken id) assembly
  rw [← Archive.since_of_pending hget]
  exact h.2 id assembly hget

theorem sound_handle {r : Archive} (h : Sound limits r) (event : Event) :
    Sound limits (r.handle event) := by
  cases event with
  | envelope now e => exact sound_envelope h now e
  | sweep now => exact sound_sweep h now

theorem sound_after {r : Archive} (h : Sound limits r) (events : List Event) :
    Sound limits (r.after events) := by
  induction events generalizing r with
  | nil => exact h
  | cons event events ih => exact ih (sound_handle h event)

theorem sound_new (limits : FragmentLimits) : Sound limits (.new limits) :=
  ⟨rfl, fun _ _ h => absurd h (Option.some_ne_none _).symm⟩

/-! ## A message that is complete -/

/-- Fragments of one message, the one that filled the last gap being last, are what a message was
read from. -/
structure MakeUp (fs : List Envelope) (last m : Envelope) : Prop where
  alike : ∀ f ∈ fs, f.isFragment = true ∧ f.messageId = last.messageId
    ∧ f.fragmentTotal = last.fragmentTotal ∧ f.checksum = last.checksum
  /-- There is one for each index. -/
  every : ∀ i < last.fragmentTotal.toNat, (latest fs (UInt32.ofNat i)).isSome
  /-- What they bring has the digest that they all declare. -/
  digest : Digest.checksum (joined fs last.fragmentTotal) = last.checksum
  read : ∃ d, Envelope.decode (joined fs last.fragmentTotal) = .ok d ∧ m = d.clearFragmentFields

theorem message_eq_ok {m : Envelope} (h : assembly.message id = .ok m) :
    Digest.checksum assembly.octets = assembly.checksum
      ∧ ∃ d, Envelope.decode assembly.octets = .ok d ∧ m = d.clearFragmentFields := by
  rw [Assembly.message] at h
  split at h
  · split at h
    · rename_i d hd
      exact ⟨‹_›, d, hd, (Except.ok.inj h).symm⟩
    · cases h
  · cases h

/-- A fragment that is refused does not complete a message. -/
theorem accepts_of_complete {m : Envelope} (hfragment : e.isFragment = true)
    (h : (a.receive now e).1 = .ok (.complete m)) : a.accepts now e = true := by
  rw [receive] at h
  simp only [hfragment, Bool.not_true, Bool.false_eq_true, if_false] at h
  split at h
  · cases h
  · split at h
    · cases h
    · exact accepts_iff.2 ⟨hfragment, ‹_›, ‹_›⟩

/-- A message is complete when its fragments make it up, and its assembly is over. -/
theorem makeUp_of_complete {r : Archive} (h : Sound limits r) {m : Envelope}
    (hfragment : e.isFragment = true) (hm : (r.assembler.receive now e).1 = .ok (.complete m)) :
    MakeUp (r.since e.messageId ++ [e]) e m ∧ (r.assembler.receive now e).2
      = { r.assembler with pending := r.assembler.pending.erase e.messageId } := by
  have haccepts := accepts_of_complete hfragment hm
  have hbacked := backed_filled h haccepts
  have hlast : e ∈ r.since e.messageId ++ [e] := List.mem_append_right _ (List.mem_singleton.2 rfl)
  have htotal := hbacked.total e hlast
  have hchecksum := hbacked.checksum e hlast
  rw [receive_of_accepts haccepts] at hm ⊢
  split at hm
  · rename_i hfull
    rw [if_pos hfull]
    obtain ⟨m', hmessage, hm'⟩ : ∃ m', (r.assembler.filled now e).message e.messageId = .ok m'
        ∧ m' = m := by
      cases hmessage : (r.assembler.filled now e).message e.messageId with
      | error fault => rw [hmessage] at hm; cases hm
      | ok m' => rw [hmessage] at hm; cases hm; exact ⟨m, rfl, rfl⟩
    subst hm'
    obtain ⟨hdigest, hread⟩ := message_eq_ok hmessage
    rw [octets_of_backed hbacked, ← htotal] at hdigest hread
    refine ⟨⟨?_, ?_, hdigest.trans hchecksum.symm, hread⟩, rfl⟩
    · intro f hf
      obtain ⟨hf₁, hf₂⟩ := hbacked.message f hf
      exact ⟨hf₁, hf₂, (hbacked.total f hf).trans htotal.symm,
        (hbacked.checksum f hf).trans hchecksum.symm⟩
    · intro i hi
      rw [htotal] at hi
      exact latest_of_full hbacked hfull hi
  · cases hm

/-! ## The table, written to in place -/

/-- Takes in an envelope as one who writes every change to the table at once: the assembly that a
fragment opens is entered before the fragment is compared with it, it is filled where it stands, and
when it is full it is looked up again to be taken out. `absent` is what he reports if it is not
there. -/
def receiveInPlace (absent : FragmentFault) (a : Assembler) (now : Nat) (e : Envelope) :
    Except FragmentFault Outcome × Assembler :=
  if !e.isFragment then (.ok (.complete e), a)
  else
    match a.check e with
    | .error fault => (.error fault, a)
    | .ok () =>
      let assembly := a.assemblyFor now e
      let entered :=
        if a.pending.contains e.messageId then a.pending
        else a.pending.insert e.messageId assembly
      match checkAgainst assembly e with
      | .error fault => (.error fault, { a with pending := entered })
      | .ok () =>
        let assembly := assembly.add e.fragmentIndex e.payload
        let pending := entered.insert e.messageId assembly
        if assembly.received ≠ assembly.total.toNat then
          (.ok (.pending assembly.received assembly.total), { a with pending })
        else
          match pending.get? e.messageId with
          | none => (.error absent, { a with pending })
          | some assembly =>
            ((assembly.message e.messageId).map .complete,
              { a with pending := pending.erase e.messageId })

/-- A fragment agrees with the assembly that it opens. -/
theorem checkAgainst_opened (now : Nat) (e : Envelope) :
    checkAgainst (.opened e.fragmentTotal e.checksum now) e = .ok () :=
  checkAgainst_eq_ok_iff.2 ⟨rfl, rfl⟩

/-- **An assembly that is full is there to be taken out.** What would be reported otherwise does not
matter, since it never is. -/
theorem receiveInPlace_eq (absent : FragmentFault) (a : Assembler) (now : Nat) (e : Envelope) :
    receiveInPlace absent a now e = a.receive now e := by
  rw [receiveInPlace, receive]
  cases a.check e with
  | error fault => rfl
  | ok u =>
      cases hagainst : checkAgainst (a.assemblyFor now e) e with
      | error fault =>
          -- the fragment does not agree with the assembly, so it did not open it
          have hthere : a.pending.contains e.messageId = true := by
            rw [Table.contains, Option.isSome_iff_ne_none]
            intro hnone
            rw [assemblyFor, hnone, Option.getD_none, checkAgainst_opened] at hagainst
            cases hagainst
          simp only [hagainst, hthere, if_true]
      | ok u =>
          have hentered : ∀ filled, (if a.pending.contains e.messageId then a.pending
              else a.pending.insert e.messageId (a.assemblyFor now e)).insert e.messageId filled
              = a.pending.insert e.messageId filled := by
            intro filled
            split
            · rfl
            · exact Table.insert_insert _ _ _ _
          simp only [hagainst, hentered, Table.get?_insert, if_true, Table.erase_insert, ite_not]
          cases ((a.assemblyFor now e).add e.fragmentIndex e.payload).message e.messageId <;> rfl

theorem check_ne_missingMessageId (hid : e.messageId ≠ "") :
    a.check e ≠ .error .missingMessageId := by
  rw [check, if_neg hid]
  split
  · intro h; cases h
  · split <;> (intro h; cases h)

theorem checkAgainst_ne_missingMessageId :
    checkAgainst assembly e ≠ .error .missingMessageId := by
  rw [checkAgainst]
  split
  · intro h; cases h
  · split <;> (intro h; cases h)

theorem message_ne_missingMessageId : assembly.message id ≠ .error .missingMessageId := by
  rw [Assembly.message]
  split
  · split <;> (intro h; cases h)
  · intro h; cases h

/-- A missing identity is reported of a fragment that has none, and of nothing else. -/
theorem receive_eq_missingMessageId_iff : (a.receive now e).1 = .error .missingMessageId
    ↔ e.isFragment = true ∧ e.messageId = "" := by
  constructor
  · intro h
    cases hfragment : e.isFragment with
    | false => rw [receive, hfragment] at h; cases h
    | true =>
        refine ⟨rfl, ?_⟩
        by_contra hid
        rcases receive_error_cases h with ⟨-, hcheck | hagainst⟩ | ⟨-, -, hmessage⟩
        · exact check_ne_missingMessageId hid hcheck
        · exact checkAgainst_ne_missingMessageId hagainst
        · exact message_ne_missingMessageId hmessage
  · rintro ⟨hfragment, hid⟩
    rw [receive, check, if_pos hid]
    simp only [hfragment, Bool.not_true, Bool.false_eq_true, if_false]

/-! ## Any number of events -/

/-- **What an assembler says is so.** After any events, with envelopes of anybody's making among
them, every pending assembly has a name, a share at least and a gap at least, no more places than the
limits allow, and the latest shares that came since it was opened, from fragments that agree with it
on the message, the total and the digest. When a fragment completes a message, what it and those
before it brought, each index's latest share joined in order, has the digest that all of them
declare, and is what the message was read from; the assembly is gone then. That it might be missing
when it is full need not be thought of, and a missing identity is reported of fragments without one
only. -/
theorem sound_of_events (limits : FragmentLimits) (events : List Event) :
    let a := (Assembler.new limits).after events
    let r := (Archive.new limits).after events
    r.assembler = a
    ∧ (∀ id assembly, a.pending.get? id = some assembly →
        Pending limits id (r.since id) assembly)
    ∧ (∀ now e m, e.isFragment = true → (a.receive now e).1 = .ok (.complete m) →
        MakeUp (r.since e.messageId ++ [e]) e m
          ∧ (a.receive now e).2 = { a with pending := a.pending.erase e.messageId })
    ∧ (∀ absent now e, a.receiveInPlace absent now e = a.receive now e)
    ∧ ∀ now e, (a.receive now e).1 = .error .missingMessageId
        ↔ e.isFragment = true ∧ e.messageId = "" := by
  intro a r
  have hassembler : r.assembler = a := Archive.assembler_after (.new limits) events
  have hsound : Sound limits r := sound_after (sound_new limits) events
  refine ⟨hassembler, ?_, ?_, fun absent now e => receiveInPlace_eq absent a now e,
    fun now e => receive_eq_missingMessageId_iff⟩
  · rw [← hassembler]
    exact hsound.2
  · rw [← hassembler]
    exact fun now e m hfragment hm => makeUp_of_complete hsound hfragment hm

/-- A message in two fragments. The second one comes with a share that is not the message's and then
with the message's, and a fragment that declares another total is refused in between. -/
theorem sound_of_events_overwritten :
    let limits := FragmentLimits.make 60 8 1000
    let whole : Envelope :=
      { sender := "ann", recipient := "bob", content := "hello", messageId := "m1", timestamp := 7 }
    let part := whole.fragment (Digest.checksum whole.encode) 2
    let first := part 0 (whole.encode.take 9)
    let events : List Event :=
      [.envelope 0 (part 1 [0]), .envelope 1 { first with fragmentTotal := 3 },
        .envelope 2 (part 1 (whole.encode.drop 9)), .sweep 3]
    let a := (Assembler.new limits).after events
    let r := (Archive.new limits).after events
    (∃ assembly, a.pending.get? "m1" = some assembly ∧ Pending limits "m1" (r.since "m1") assembly)
      ∧ (a.receive 4 first).1 = .ok (.complete whole)
      ∧ MakeUp (r.since "m1" ++ [first]) first whole := by
  intro limits whole part first events a r
  obtain ⟨-, hpending, hcomplete, -, -⟩ := sound_of_events limits events
  -- what is kept is the second fragment's share, whichever it is
  let kept (share : Bytes) : Assembler := ⟨limits, Table.empty.insert "m1"
    ((Assembly.opened 2 (Digest.checksum whole.encode) 0).add 1 share)⟩
  have hopens : ((Assembler.new limits).receive 0 (part 1 [0])).2 = kept [0] := by
    have haccepts : (Assembler.new limits).accepts 0 (part 1 [0]) = true :=
      accepts_iff.2 ⟨rfl, rfl, checkAgainst_opened 0 (part 1 [0])⟩
    rw [receive_of_accepts haccepts]
    rfl
  have hrefused : ((kept [0]).receive 1 { first with fragmentTotal := 3 }).2 = kept [0] :=
    receive_of_not_accepts rfl
  have haccepts : ∀ share now index share', (kept share).check (part index share') = .ok () →
      (kept share).accepts now (part index share') = true :=
    fun share now index share' hcheck =>
      accepts_iff.2 ⟨rfl, hcheck, checkAgainst_eq_ok_iff.2 ⟨rfl, rfl⟩⟩
  have hagain : ((kept [0]).receive 2 (part 1 (whole.encode.drop 9))).2
      = kept (whole.encode.drop 9) := by
    rw [receive_of_accepts (haccepts _ _ _ _ rfl)]
    rfl
  have hevents : a = kept (whole.encode.drop 9) := by
    simp only [a, events, after, List.foldl_cons, List.foldl_nil, handle, hopens, hrefused, hagain]
    rfl
  have hoctets : ((kept (whole.encode.drop 9)).filled 4 first).octets = whole.encode := by
    show whole.encode.take 9 ++ (whole.encode.drop 9 ++ []) = _
    rw [List.append_nil, List.take_append_drop]
  have hfits : whole.Fits := Envelope.fits_of_length (by decide)
  have hfull : ((kept (whole.encode.drop 9)).filled 4 first).received
      = ((kept (whole.encode.drop 9)).filled 4 first).total.toNat := rfl
  have hmessage : ((kept (whole.encode.drop 9)).filled 4 first).message "m1" = .ok whole := by
    have hdigest : ((kept (whole.encode.drop 9)).filled 4 first).checksum
        = Digest.checksum whole.encode := rfl
    rw [Assembly.message, hoctets, hdigest, if_pos rfl, Envelope.decode_encode hfits]
    rfl
  have hlast : (a.receive 4 first).1 = .ok (.complete whole) := by
    rw [hevents, receive_of_accepts (haccepts _ _ _ _ rfl), if_pos hfull]
    exact congrArg (Except.map Outcome.complete) hmessage
  refine ⟨?_, hlast, (hcomplete 4 first whole rfl hlast).1⟩
  have hget : a.pending.get? "m1"
      = some ((Assembly.opened 2 (Digest.checksum whole.encode) 0).add 1 (whole.encode.drop 9)) := by
    rw [hevents]
    rfl
  exact ⟨_, hget, hpending _ _ hget⟩

end Assembler

end Switchboard
