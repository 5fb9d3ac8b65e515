import Switchboard.Fragment.Assembler
import Switchboard.Proofs.Fragment.Split
import Switchboard.Proofs.Table

/-!
# Joining undoes splitting

However the fragments of a message arrive, in whatever order, as often as one likes, and whatever
else the assembler is given in between, the one that fills the last gap completes the message, and
every one before it is told how many different ones came.

The invariant is `Holds`: the assembly of the message has a share for each index that was seen and
for no other, and it is the message's own share. An index that comes again brings the same share, so
its entry is written over with what it was.

Where each fragment comes once, it is the last one that completes the message, whichever that is:
`Comes.joins`.
-/

namespace Switchboard

namespace Assembler

/-- One thing that an assembler is given to do. -/
inductive Event
  | envelope (now : Nat) (e : Envelope)
  | sweep (now : Nat)
  deriving DecidableEq, Repr

/-- The assembler after an event. -/
def handle (a : Assembler) : Event → Assembler
  | .envelope now e => (a.receive now e).2
  | .sweep now => (a.sweep now).2

/-- The assembler after some events. -/
def after (a : Assembler) (events : List Event) : Assembler := events.foldl handle a

/-- An event that is about other messages: no fragment of the message comes, and its assembly does
not expire. -/
def Spares (id : String) (a : Assembler) : Event → Prop
  | .envelope _ e => e.isFragment = true → e.messageId ≠ id
  | .sweep now => ∀ assembly, a.pending.get? id = some assembly → a.isExpired now assembly = false

/-- Events that bring some of the fragments `fs` of a message, and else are about other messages. -/
def Draws (fs : List Envelope) (id : String) : Assembler → List Event → Prop
  | _, [] => True
  | a, event :: events =>
    ((∃ now f, f ∈ fs ∧ event = .envelope now f) ∨ Spares id a event)
      ∧ Draws fs id (a.handle event) events

/-- The indices of those fragments that events bring. -/
def seen (fs : List Envelope) : List Event → Finset UInt32
  | [] => ∅
  | .envelope _ e :: events =>
    if e ∈ fs then insert e.fragmentIndex (seen fs events) else seen fs events
  | .sweep _ :: events => seen fs events

/-! ## What the assembly of a message holds -/

variable {limits : FragmentLimits} {whole f : Envelope} {a : Assembler} {indices : Finset UInt32}

/-- An assembly with the message's own share for each of some indices, and no other. -/
structure Gathers (limits : FragmentLimits) (whole : Envelope) (indices : Finset UInt32)
    (assembly : Assembly) : Prop where
  total : assembly.total = UInt32.ofNat (whole.shares limits).length
  checksum : assembly.checksum = Digest.checksum whole.encode
  parts : ∀ i, assembly.parts.get? i
    = if i ∈ indices then (whole.shares limits)[i.toNat]? else none

/-- The assembler has gathered the shares with some indices, and can take the others. -/
structure Holds (limits : FragmentLimits) (whole : Envelope) (indices : Finset UInt32)
    (a : Assembler) : Prop where
  /-- The message does not have more fragments than the assembler takes. -/
  cap : (whole.shares limits).length ≤ a.limits.cap.toNat
  /-- Every index is the place of a share. -/
  range : ∀ i ∈ indices, i.toNat < (whole.shares limits).length
  /-- Nothing has come, or the assembly is there. -/
  pending : (a.pending.get? whole.messageId = none ∧ indices = ∅) ∨
    ∃ assembly, a.pending.get? whole.messageId = some assembly
      ∧ Gathers limits whole indices assembly

theorem toNat_length_shares (h : Holds limits whole indices a) :
    (UInt32.ofNat (whole.shares limits).length).toNat = (whole.shares limits).length := by
  have hcap := h.cap
  have hlt := a.limits.cap.toNat_lt
  rw [UInt32.toNat_ofNat']
  omega

/-- A fragment finds what came before it. -/
theorem gathers_assemblyFor (h : Holds limits whole indices a) (hf : f ∈ whole.fragments limits)
    (now : Nat) : Gathers limits whole indices (a.assemblyFor now f) := by
  obtain ⟨index, share, -, rfl⟩ := Envelope.mem_fragments hf
  rw [assemblyFor]
  -- the first fragment opens an assembly with its own total and digest
  rcases h.pending with ⟨hnone, rfl⟩ | ⟨assembly, hsome, hg⟩
  · show Gathers limits whole ∅ ((a.pending.get? whole.messageId).getD _)
    rw [hnone]
    exact ⟨rfl, rfl, fun i => by simp [Assembly.opened, Envelope.fragment]⟩
  · show Gathers limits whole indices ((a.pending.get? whole.messageId).getD _)
    rw [hsome]
    exact hg

/-- A share that comes is added to the others, or is one of them. -/
theorem gathers_add {assembly : Assembly} (hg : Gathers limits whole indices assembly)
    {index : UInt32} {share : Bytes} (hs : (whole.shares limits)[index.toNat]? = some share) :
    Gathers limits whole (insert index indices) (assembly.add index share) := by
  refine ⟨hg.total, hg.checksum, ?_⟩
  intro i
  rw [Assembly.add, Table.get?_insert, hg.parts i]
  -- an index that comes again is written over with the same share
  by_cases hi : i = index
  · rw [if_pos hi, if_pos (hi ▸ Finset.mem_insert_self _ _), hi, hs]
  · simp only [hi, if_false, Finset.mem_insert, false_or]

theorem received_of_gathers {assembly : Assembly} (hg : Gathers limits whole indices assembly)
    (hrange : ∀ i ∈ indices, i.toNat < (whole.shares limits).length) :
    assembly.received = indices.card := by
  refine Table.size_eq_card fun i => ?_
  rw [hg.parts i]
  by_cases hi : i ∈ indices
  · rw [if_pos hi, List.getElem?_eq_getElem (hrange i hi)]
    simp [hi]
  · rw [if_neg hi]
    simp [hi]

/-- As many different places as there are shares are all of them. -/
theorem mem_of_card_eq {n : Nat} (hn : n < 2 ^ 32) (hrange : ∀ i ∈ indices, i.toNat < n)
    (hcard : indices.card = n) {index : Nat} (hindex : index < n) :
    UInt32.ofNat index ∈ indices := by
  -- below the bound places and indices are the same, so counting them is enough
  have hinj : Set.InjOn UInt32.ofNat (Finset.range n : Finset Nat) := by
    intro i hi j hj hij
    rw [Finset.mem_coe, Finset.mem_range] at hi hj
    have := congrArg UInt32.toNat hij
    rw [UInt32.toNat_ofNat', UInt32.toNat_ofNat'] at this
    omega
  have hsub : indices ⊆ (Finset.range n).image UInt32.ofNat := by
    intro i hi
    exact Finset.mem_image.mpr
      ⟨i.toNat, Finset.mem_range.mpr (hrange i hi), UInt32.ofNat_toNat⟩
  have heq : indices = (Finset.range n).image UInt32.ofNat := by
    refine Finset.eq_of_subset_of_card_le hsub ?_
    rw [Finset.card_image_of_injOn hinj, Finset.card_range, hcard]
  rw [heq]
  exact Finset.mem_image.mpr ⟨index, Finset.mem_range.mpr hindex, rfl⟩

theorem flatMap_range_getElem? {α : Type} (lists : List (List α)) :
    ((List.range lists.length).flatMap fun i => (lists[i]?).getD []) = lists.flatten := by
  rw [List.flatMap_def]
  refine congrArg List.flatten (List.ext_getElem? fun i => ?_)
  rw [List.getElem?_map]
  by_cases hi : i < lists.length
  · rw [List.getElem?_range hi, List.getElem?_eq_getElem hi]
    simp [hi]
  · rw [List.getElem?_eq_none (by simpa using hi), List.getElem?_eq_none (by simpa using hi)]
    rfl

/-- With every share there, the octets are the message's. -/
theorem octets_of_gathers {assembly : Assembly} (hg : Gathers limits whole indices assembly)
    (hrange : ∀ i ∈ indices, i.toNat < (whole.shares limits).length)
    (hn : (UInt32.ofNat (whole.shares limits).length).toNat = (whole.shares limits).length)
    (hcard : indices.card = (whole.shares limits).length) :
    assembly.octets = whole.encode := by
  have hlt : (whole.shares limits).length < 2 ^ 32 := by
    rw [← hn]
    exact UInt32.toNat_lt _
  have hshare : ∀ i ∈ List.range (whole.shares limits).length,
      (assembly.parts.get? (UInt32.ofNat i)).getD [] = ((whole.shares limits)[i]?).getD [] := by
    intro i hi
    have hi := List.mem_range.mp hi
    rw [hg.parts, if_pos (mem_of_card_eq hlt hrange hcard hi), UInt32.toNat_ofNat',
      Nat.mod_eq_of_lt (by omega)]
  rw [Assembly.octets, hg.total, hn, List.flatMap_congr hshare, flatMap_range_getElem?,
    Envelope.shares, flatten_chunks]

/-- With every share there, the message is there. -/
theorem message_of_gathers {assembly : Assembly} (hg : Gathers limits whole indices assembly)
    (hrange : ∀ i ∈ indices, i.toNat < (whole.shares limits).length)
    (hn : (UInt32.ofNat (whole.shares limits).length).toNat = (whole.shares limits).length)
    (hcard : indices.card = (whole.shares limits).length) (hfits : whole.Fits) :
    assembly.message whole.messageId = .ok whole.clearFragmentFields := by
  rw [Assembly.message, octets_of_gathers hg hrange hn hcard, hg.checksum]
  simp only [if_true, Envelope.decode_encode hfits]

/-! ## One event -/

theorem check_fragment (h : Holds limits whole indices a) (hid : whole.messageId ≠ "")
    (hf : f ∈ whole.fragments limits) : a.check f = .ok () := by
  have hn := toNat_length_shares h
  have hcap := h.cap
  obtain ⟨index, share, hs, rfl⟩ := Envelope.mem_fragments hf
  obtain ⟨hindex, -⟩ := List.getElem?_eq_some_iff.mp hs
  have hzero : ¬ (UInt32.ofNat (whole.shares limits).length = 0
      ∨ a.limits.cap < UInt32.ofNat (whole.shares limits).length) := by
    rw [← UInt32.toNat_inj, UInt32.lt_iff_toNat_lt, hn, UInt32.toNat_zero]
    omega
  have hrange : ¬ UInt32.ofNat (whole.shares limits).length ≤ UInt32.ofNat index := by
    rw [UInt32.le_iff_toNat_le, hn, UInt32.toNat_ofNat']
    omega
  rw [check]
  simp only [Envelope.fragment, hid, hzero, hrange, if_false]

/-- The index of a fragment is the place of its share. -/
theorem share_of_fragment (h : Holds limits whole indices a) (hf : f ∈ whole.fragments limits) :
    (whole.shares limits)[f.fragmentIndex.toNat]? = some f.payload := by
  have hcap := h.cap
  have hlt := a.limits.cap.toNat_lt
  obtain ⟨index, share, hs, rfl⟩ := Envelope.mem_fragments hf
  obtain ⟨hindex, -⟩ := List.getElem?_eq_some_iff.mp hs
  show (whole.shares limits)[(UInt32.ofNat index).toNat]? = some share
  rw [UInt32.toNat_ofNat', Nat.mod_eq_of_lt (by omega), hs]

/-- **A fragment of the message fills a gap.** If it is the last one, the message is complete and
its assembly is gone. -/
theorem receive_fragment (h : Holds limits whole indices a) (hid : whole.messageId ≠ "")
    (hfits : whole.Fits) (hf : f ∈ whole.fragments limits) (now : Nat) :
    ((insert f.fragmentIndex indices).card = (whole.shares limits).length →
      a.receive now f = (.ok (.complete whole.clearFragmentFields),
        { a with pending := a.pending.erase whole.messageId })) ∧
    ((insert f.fragmentIndex indices).card ≠ (whole.shares limits).length →
      (a.receive now f).1 = .ok (.pending (insert f.fragmentIndex indices).card
        (UInt32.ofNat (whole.shares limits).length)) ∧
      Holds limits whole (insert f.fragmentIndex indices) (a.receive now f).2) := by
  have hn := toNat_length_shares h
  have hshare := share_of_fragment h hf
  have hcheck := check_fragment h hid hf
  have hfor := gathers_assemblyFor h hf now
  have hadd := gathers_add hfor hshare
  have hrange : ∀ i ∈ insert f.fragmentIndex indices, i.toNat < (whole.shares limits).length := by
    intro i hi
    rcases Finset.mem_insert.mp hi with rfl | hi
    · exact (List.getElem?_eq_some_iff.mp hshare).1
    · exact h.range i hi
  have hreceived := received_of_gathers hadd hrange
  obtain ⟨hfragment, hmessageId, htotal, hchecksum⟩ : f.isFragment = true
      ∧ f.messageId = whole.messageId
      ∧ f.fragmentTotal = UInt32.ofNat (whole.shares limits).length
      ∧ f.checksum = Digest.checksum whole.encode := by
    obtain ⟨index, share, -, rfl⟩ := Envelope.mem_fragments hf
    exact ⟨rfl, rfl, rfl, rfl⟩
  have hagainst : checkAgainst (a.assemblyFor now f) f = .ok () := by
    rw [checkAgainst, hfor.total, hfor.checksum, htotal, hchecksum]
    simp only [ne_eq, not_true_eq_false, if_false]
  constructor
  · intro hcard
    rw [receive]
    simp only [hfragment, Bool.not_true, Bool.false_eq_true, if_false, hcheck, hagainst,
      hreceived, hadd.total, hn, hmessageId, hcard, if_true,
      message_of_gathers hadd hrange hn hcard hfits]
  · intro hcard
    rw [receive]
    simp only [hfragment, Bool.not_true, Bool.false_eq_true, if_false, hcheck, hagainst,
      hreceived, hadd.total, hn, hmessageId, hcard]
    refine ⟨trivial, h.cap, hrange, Or.inr ⟨_, ?_, hadd⟩⟩
    simp only [Table.get?_insert, if_true]

@[simp] theorem limits_receive (a : Assembler) (now : Nat) (e : Envelope) :
    (a.receive now e).2.limits = a.limits := by
  rw [receive]
  split
  · rfl
  · split
    · rfl
    · dsimp only
      split
      · rfl
      · split
        · split <;> rfl
        · rfl

/-- What belongs to another message leaves the assembly of this one as it is. -/
theorem get?_receive_of_ne {id : String} {e : Envelope}
    (h : e.isFragment = true → e.messageId ≠ id) (now : Nat) :
    (a.receive now e).2.pending.get? id = a.pending.get? id := by
  rw [receive]
  split
  · rfl
  · rename_i hfragment
    have hne : id ≠ e.messageId := fun heq => h (by simpa using hfragment) heq.symm
    split
    · rfl
    · dsimp only
      split
      · rfl
      · split
        · split <;> simp [hne]
        · simp [hne]

/-- An assembly that does not expire is kept. -/
theorem get?_sweep {id : String} {now : Nat}
    (h : ∀ assembly, a.pending.get? id = some assembly → a.isExpired now assembly = false) :
    (a.sweep now).2.pending.get? id = a.pending.get? id := by
  rw [sweep, Table.get?_filter]
  cases hget : a.pending.get? id with
  | none => rfl
  | some assembly => simp [Option.filter, h assembly hget]

theorem holds_spares (h : Holds limits whole indices a) {event : Event}
    (hs : Spares whole.messageId a event) : Holds limits whole indices (a.handle event) := by
  cases event with
  | envelope now e =>
      refine ⟨?_, h.range, ?_⟩
      · rw [handle, limits_receive]
        exact h.cap
      · rw [handle, get?_receive_of_ne hs]
        exact h.pending
  | sweep now =>
      refine ⟨h.cap, h.range, ?_⟩
      rw [handle, get?_sweep hs]
      exact h.pending

/-! ## Any number of events -/

/-- What spares the message is none of its fragments. -/
theorem not_mem_of_spares {now : Nat} {e : Envelope}
    (hs : Spares whole.messageId a (.envelope now e)) : e ∉ whole.fragments limits := by
  intro hmem
  obtain ⟨index, share, -, rfl⟩ := Envelope.mem_fragments hmem
  exact hs rfl rfl

/-- While a gap is left, the assembler holds what the events brought. -/
theorem holds_after (hid : whole.messageId ≠ "") (hfits : whole.Fits) :
    ∀ (events : List Event) {a : Assembler} {indices : Finset UInt32},
      Draws (whole.fragments limits) whole.messageId a events → Holds limits whole indices a →
      (seen (whole.fragments limits) events ∪ indices).card < (whole.shares limits).length →
      Holds limits whole (seen (whole.fragments limits) events ∪ indices) (a.after events)
  | [], a, indices, _, h, _ => by
      rw [seen, Finset.empty_union]
      exact h
  | event :: events, a, indices, ⟨hevent, hrest⟩, h, hcard => by
      -- on the events: a fragment adds its index, anything else leaves the assembly alone
      rcases hevent with ⟨now, f, hf, rfl⟩ | hs
      · rw [seen, if_pos hf, Finset.insert_union, ← Finset.union_insert] at hcard ⊢
        -- a gap is left at the end, so one is left now, and the fragment does not complete the message
        have hsubset : insert f.fragmentIndex indices
            ⊆ seen (whole.fragments limits) events ∪ insert f.fragmentIndex indices :=
          Finset.subset_union_right
        have hle := Finset.card_le_card hsubset
        have hnext := ((receive_fragment h hid hfits hf now).2 (by omega)).2
        exact holds_after hid hfits events hrest hnext hcard
      · have hnext := holds_spares h hs
        cases event with
        | envelope now e =>
            rw [seen, if_neg (not_mem_of_spares hs)] at hcard ⊢
            exact holds_after hid hfits events hrest hnext hcard
        | sweep now =>
            rw [seen] at hcard ⊢
            exact holds_after hid hfits events hrest hnext hcard

/-- **Joining undoes splitting.** An assembler that knows nothing of a message is given some of its
fragments, in any order and any of them again and again, among whatever else. As long as an index
was missing, the next fragment `f` is counted with the different ones before it; and the one that
fills the last gap gives the message as it was split, its assembly being gone then. -/
theorem receive_after_draws {fresh : String} {stamp : Int64} {e : Envelope} {fs : List Envelope}
    (hsplit : e.split limits fresh stamp = .ok fs) (hfresh : fresh ≠ "")
    (hlength : (e.completed fresh stamp).encode.length < 2 ^ 64)
    (hcap : fs.length ≤ a.limits.cap.toNat)
    (hnew : a.pending.get? (e.completed fresh stamp).messageId = none)
    {events : List Event} (hdraws : Draws fs (e.completed fresh stamp).messageId a events)
    (hmore : (seen fs events).card < fs.length) (hf : f ∈ fs) (now : Nat) :
    ((insert f.fragmentIndex (seen fs events)).card < fs.length →
      ∃ total : UInt32, total.toNat = fs.length ∧ ((a.after events).receive now f).1
        = .ok (.pending (insert f.fragmentIndex (seen fs events)).card total)) ∧
    ((insert f.fragmentIndex (seen fs events)).card = fs.length →
      (a.after events).receive now f
        = (.ok (.complete (e.completed fresh stamp).clearFragmentFields),
          { a.after events with
            pending := (a.after events).pending.erase (e.completed fresh stamp).messageId })) := by
  obtain ⟨rfl, -⟩ := Envelope.eq_fragments_of_split hsplit
  have hid := Envelope.completed_messageId_ne hfresh stamp e
  have hfits := Envelope.fits_of_length (e := e.completed fresh stamp) hlength
  rw [Envelope.length_fragments] at hcap hmore ⊢
  -- nothing of the message has come yet
  have hstart : Holds limits (e.completed fresh stamp) ∅ a :=
    ⟨hcap, fun i hi => absurd hi (Finset.notMem_empty i), Or.inl ⟨hnew, rfl⟩⟩
  have hheld := holds_after hid hfits events hdraws hstart (by rwa [Finset.union_empty])
  rw [Finset.union_empty] at hheld
  obtain ⟨hfull, hgap⟩ := receive_fragment hheld hid hfits hf now
  refine ⟨?_, hfull⟩
  intro hlt
  exact ⟨_, toNat_length_shares hheld, (hgap (by omega)).1⟩

/-- A message in two fragments, of which the second comes first and comes twice. -/
theorem receive_after_draws_backwards :
    let limits := FragmentLimits.make 60 8 1000
    let e : Envelope := { sender := "ann", recipient := "bob", content := "hello" }
    let other : Envelope := { messageId := "m2", isFragment := true, fragmentTotal := 3 }
    ∃ first second : Envelope, e.split limits "m1" 7 = .ok [first, second] ∧
      (((Assembler.new limits).after
        [.envelope 0 second, .envelope 1 other, .sweep 2, .envelope 3 second]).receive 4 first).1
        = .ok (.complete { e with messageId := "m1", timestamp := 7 }) := by
  intro limits e other
  have hend : ((e.completed "m1" 7).encode.drop limits.size).drop limits.size = [] := by
    rw [List.drop_drop]
    exact List.drop_of_length_le (by decide)
  have hshares : (e.completed "m1" 7).shares limits = [(e.completed "m1" 7).encode.take limits.size,
      ((e.completed "m1" 7).encode.drop limits.size).take limits.size] := by
    rw [Envelope.shares, chunks_cons limits.size_pos (Envelope.encode_ne_nil _),
      chunks_cons limits.size_pos (by decide), hend, chunks_nil]
  obtain ⟨first, second, hfs, hfirst, hsecond⟩ : ∃ first second : Envelope,
      (e.completed "m1" 7).fragments limits = [first, second]
        ∧ first.fragmentIndex = 0 ∧ second.fragmentIndex = 1 := by
    rw [Envelope.fragments, hshares]
    exact ⟨_, _, rfl, rfl, rfl⟩
  have hsplit : e.split limits "m1" 7 = .ok [first, second] := by
    rw [Envelope.split_eq, if_neg (by decide), hfs]
  have hother : other ∉ [first, second] := by
    have hspares : Spares (e.completed "m1" 7).messageId (.new limits) (.envelope 1 other) :=
      fun _ => by decide
    rw [← hfs]
    exact not_mem_of_spares hspares
  have hseen : seen [first, second]
      [.envelope 0 second, .envelope 1 other, .sweep 2, .envelope 3 second] = {1} := by
    simp [seen, hother, hsecond]
  have hdraws : Draws [first, second] (e.completed "m1" 7).messageId (.new limits)
      [.envelope 0 second, .envelope 1 other, .sweep 2, .envelope 3 second] := by
    refine ⟨Or.inl ⟨0, second, by simp, rfl⟩, Or.inr fun _ => by decide, Or.inr ?_,
      Or.inl ⟨3, second, by simp, rfl⟩, trivial⟩
    intro assembly _
    simp only [handle, isExpired, limits_receive, new, limits, FragmentLimits.make]
    exact decide_eq_false (by omega)
  refine ⟨first, second, hsplit, ?_⟩
  have hcap : [first, second].length ≤ (Assembler.new limits).limits.cap.toNat :=
    (by decide : 2 ≤ 8)
  have hlast := (receive_after_draws hsplit (by decide) (by decide) hcap rfl
    hdraws (by rw [hseen]; exact Nat.lt_succ_self 1) (List.mem_cons_self ..) 4).2
    (by rw [hseen, hfirst]; rfl)
  rw [hlast]
  rfl

/-! ## Each part once -/

/-- The message that an envelope completes, if it does. -/
def joins? (a : Assembler) (now : Nat) (e : Envelope) : Option Envelope :=
  match (a.receive now e).1 with
  | .ok (.complete message) => some message
  | _ => none

/-- The assembler after some envelopes that came at one time. -/
def joining (a : Assembler) (now : Nat) (es : List Envelope) : Assembler :=
  a.after (es.map (.envelope now))

/-- In whatever order the parts of a message come, the last of them completes it, and no other one
does. -/
def Joins (a : Assembler) (now : Nat) (parts : List Envelope) (message : Envelope) : Prop :=
  ∀ done f, (done ++ [f]).Subperm parts → (a.joining now done).joins? now f
    = if done.length + 1 = parts.length then some message else none

section Joins

variable {message : Envelope} {parts : List Envelope}

theorem joining_concat (a : Assembler) (now : Nat) (es : List Envelope) (e : Envelope) :
    a.joining now (es ++ [e]) = ((a.joining now es).receive now e).2 := by
  rw [joining, joining, after, after, List.map_append, List.foldl_append]
  rfl

theorem joins?_of_whole (hwhole : message.isFragment = false) (a : Assembler) (now : Nat) :
    a.joins? now message = some message := by
  rw [joins?, receive, hwhole]
  rfl

/-- A whole message is complete. -/
theorem joins_whole (hwhole : message.isFragment = false) (a : Assembler) (now : Nat) :
    a.Joins now [message] message := by
  intro done f hsub
  have hlength := hsub.length_le
  rw [List.length_append, List.length_singleton, List.length_singleton] at hlength
  obtain rfl : done = [] := List.eq_nil_of_length_eq_zero (by omega)
  obtain rfl := List.mem_singleton.1 (hsub.subset List.mem_cons_self)
  exact joins?_of_whole hwhole _ now

/-- No two fragments have the same place. -/
theorem nodup_index_fragments (h : (whole.shares limits).length < 2 ^ 32) :
    ((whole.fragments limits).map (·.fragmentIndex)).Nodup := by
  have hindices : (whole.fragments limits).map (·.fragmentIndex)
      = (List.range (whole.shares limits).length).map UInt32.ofNat := by
    refine List.ext_getElem ?_ fun index h₁ h₂ => ?_
    · rw [List.length_map, Envelope.length_fragments, List.length_map, List.length_range]
    · simp [Envelope.fragments, Envelope.fragment]
  rw [hindices]
  refine List.Nodup.map_on ?_ List.nodup_range
  intro i hi j hj hij
  rw [List.mem_range] at hi hj
  have hnat := congrArg UInt32.toNat hij
  rw [UInt32.toNat_ofNat', UInt32.toNat_ofNat'] at hnat
  omega

theorem seen_map {fs done : List Envelope} (h : ∀ f ∈ done, f ∈ fs) (now : Nat) :
    seen fs (done.map (.envelope now)) = (done.map (·.fragmentIndex)).toFinset := by
  induction done with
  | nil => rfl
  | cons f done ih =>
      obtain ⟨hf, hdone⟩ := List.forall_mem_cons.1 h
      rw [List.map_cons, seen, if_pos hf, ih hdone, List.map_cons, List.toFinset_cons]

theorem draws_map {fs done : List Envelope} (h : ∀ f ∈ done, f ∈ fs) (id : String) (now : Nat)
    (a : Assembler) : Draws fs id a (done.map (.envelope now)) := by
  induction done generalizing a with
  | nil => trivial
  | cons f done ih =>
      obtain ⟨hf, hdone⟩ := List.forall_mem_cons.1 h
      exact ⟨Or.inl ⟨now, f, hf, rfl⟩, ih hdone _⟩

/-- Of the fragments of a message, each once, as many places are taken as there are fragments. -/
theorem card_of_subperm {done : List Envelope} (hlt : (whole.shares limits).length < 2 ^ 32)
    (hsub : (done ++ [f]).Subperm (whole.fragments limits)) :
    (insert f.fragmentIndex (done.map (·.fragmentIndex)).toFinset).card = done.length + 1 := by
  obtain ⟨fs, hperm, hsublist⟩ := hsub
  have hnodup : ((done ++ [f]).map (·.fragmentIndex)).Nodup :=
    (hperm.map _).nodup_iff.1 ((nodup_index_fragments hlt).sublist (hsublist.map _))
  have hinsert : insert f.fragmentIndex (done.map (·.fragmentIndex)).toFinset
      = ((done ++ [f]).map (·.fragmentIndex)).toFinset := by
    ext i
    simp
  rw [hinsert, List.toFinset_card_of_nodup hnodup, List.length_map, List.length_append,
    List.length_singleton]

/-- **The fragments of a message are joined in any order.** -/
theorem joins_fragments (hid : whole.messageId ≠ "") (hfits : whole.Fits)
    (hcap : (whole.shares limits).length ≤ a.limits.cap.toNat)
    (hnew : a.pending.get? whole.messageId = none) (now : Nat) :
    a.Joins now (whole.fragments limits) whole.clearFragmentFields := by
  intro done f hsub
  have hlt := a.limits.cap.toNat_lt
  have hcard := card_of_subperm (by omega) hsub
  have hdone : ∀ f' ∈ done, f' ∈ whole.fragments limits :=
    fun f' h => hsub.subset (List.mem_append_left _ h)
  have hf := hsub.subset (List.mem_append_right done List.mem_cons_self)
  have hlength := hsub.length_le
  rw [List.length_append, List.length_singleton, Envelope.length_fragments] at hlength
  have hstart : Holds limits whole ∅ a :=
    ⟨hcap, fun i hi => absurd hi (Finset.notMem_empty i), Or.inl ⟨hnew, rfl⟩⟩
  have hgap : (done.map (·.fragmentIndex)).toFinset.card < (whole.shares limits).length := by
    have hle := List.toFinset_card_le (done.map (·.fragmentIndex))
    rw [List.length_map] at hle
    omega
  have hheld := holds_after hid hfits _ (draws_map hdone whole.messageId now a) hstart
    (by rwa [Finset.union_empty, seen_map hdone])
  rw [Finset.union_empty, seen_map hdone] at hheld
  obtain ⟨hfull, hmore⟩ := receive_fragment hheld hid hfits hf now
  rw [hcard] at hfull hmore
  rw [joining, joins?, Envelope.length_fragments]
  by_cases hlast : done.length + 1 = (whole.shares limits).length
  · rw [hfull hlast, if_pos hlast]
  · rw [(hmore hlast).1, if_neg hlast]

/-- A message comes in as it is, or split into fragments by whoever sends it. -/
inductive Comes (a : Assembler) : Envelope → List Envelope → Prop
  | whole {message : Envelope} (h : message.isFragment = false) : Comes a message [message]
  | split {e : Envelope} {limits : FragmentLimits} {fresh : String} {stamp : Int64}
      {fs : List Envelope} (split : e.split limits fresh stamp = .ok fs) (named : fresh ≠ "")
      (length : (e.completed fresh stamp).encode.length < 2 ^ 64)
      (cap : fs.length ≤ a.limits.cap.toNat)
      (new : a.pending.get? (e.completed fresh stamp).messageId = none) :
      Comes a (e.completed fresh stamp).clearFragmentFields fs

/-- **Whichever way a message comes**, and in whatever order its parts, the last of them completes
it. -/
theorem Comes.joins (h : a.Comes message parts) (now : Nat) : a.Joins now parts message := by
  cases h with
  | whole hwhole => exact joins_whole hwhole a now
  | split hsplit hfresh hlength hcap hnew =>
      obtain ⟨rfl, -⟩ := Envelope.eq_fragments_of_split hsplit
      rw [Envelope.length_fragments] at hcap
      exact joins_fragments (Envelope.completed_messageId_ne hfresh _ _)
        (Envelope.fits_of_length hlength) hcap hnew now

/-- Every part is addressed like the message. -/
theorem Comes.addressed (h : a.Comes message parts) (hf : f ∈ parts) :
    f.recipient = message.recipient ∧ f.deliveryKind = message.deliveryKind := by
  cases h with
  | whole hwhole =>
      obtain rfl := List.mem_singleton.1 hf
      exact ⟨rfl, rfl⟩
  | split hsplit hfresh hlength hcap hnew =>
      obtain ⟨rfl, -⟩ := Envelope.eq_fragments_of_split hsplit
      obtain ⟨index, share, -, rfl⟩ := Envelope.mem_fragments hf
      exact ⟨rfl, rfl⟩

theorem Comes.ne_nil (h : a.Comes message parts) : parts ≠ [] := by
  cases h with
  | whole hwhole => exact List.cons_ne_nil message []
  | split hsplit hfresh hlength hcap hnew =>
      obtain ⟨rfl, -⟩ := Envelope.eq_fragments_of_split hsplit
      exact Envelope.fragments_ne_nil _ _

end Joins

end Assembler

end Switchboard
