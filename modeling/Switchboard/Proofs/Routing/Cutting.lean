import Switchboard.Proofs.Cut
import Switchboard.Proofs.Routing.Run

/-!
# How a message is cut

What `Envelope.split` promises is said without the way it gets there. Its shares are what is cut from
its octets (`IsCutInto`), and `IsCut` adds the envelopes around them. There is one way only to do this
(`isCut_iff`), so `split_exact` can say exactly what comes of a message of any length under any limits.

A fragment is headed for whom its message is for: the router looks at both alike
(`run_route_inbound`), and to cut a message does nothing to any shard.
-/

namespace Switchboard

/-- The shares of a message are what is cut from its octets. -/
theorem isCutInto_chunks {size : Nat} (size_pos : 0 < size) (octets : Bytes) :
    IsCutInto size octets (chunks size size_pos octets) := by
  induction octets using chunks_induction size_pos with
  | nil =>
      rw [chunks_nil]
      exact .nil size
  | cut octets h ih =>
      rw [chunks_cons size_pos h]
      exact .cons size_pos h ih

namespace Envelope

/-! ## Fragments -/

/-- An envelope is the fragment of a message at a place. The message is `e`, and `whole` is what is
sent of it. -/
structure IsFragmentOf (e whole : Envelope) (total place : Nat) (f : Envelope) : Prop where
  marked : f.isFragment = true
  index : f.fragmentIndex.toNat = place
  total : f.fragmentTotal.toNat = total
  checksum : f.checksum = Digest.checksum whole.encode
  messageId : f.messageId = whole.messageId
  timestamp : f.timestamp = whole.timestamp
  sender : f.sender = e.sender
  recipient : f.recipient = e.recipient
  contentType : f.contentType = e.contentType
  messageType : f.messageType = e.messageType
  /-- The content travels in the payload. -/
  bare : f.tag = "" ∧ f.content = ""

/-- Envelopes are the fragments of a message, in order. -/
structure IsCut (size : Nat) (e whole : Envelope) (fs : List Envelope) : Prop where
  shares : IsCutInto size whole.encode (fs.map (·.payload))
  fragments : ∀ place f, fs[place]? = some f → e.IsFragmentOf whole fs.length place f

section Cut

variable {limits : FragmentLimits} {e : Envelope} {fresh : String} {now : Int64} {total place : Nat}
  {f : Envelope} {fs : List Envelope}

/-- A fragment is told by its place and its share. -/
theorem isFragmentOf_iff (htotal : total < 2 ^ 32) (hplace : place < total) :
    e.IsFragmentOf (e.completed fresh now) total place f ↔ f = (e.completed fresh now).fragment
      (Digest.checksum (e.completed fresh now).encode) total place f.payload := by
  constructor
  · intro h
    have hindex : f.fragmentIndex = UInt32.ofNat place := by
      rw [← h.index, UInt32.ofNat_toNat]
    have htotal : f.fragmentTotal = UInt32.ofNat total := by
      rw [← h.total, UInt32.ofNat_toNat]
    obtain ⟨htag, hcontent⟩ := h.bare
    -- field by field: all but the payload are what the place says
    cases f
    simp only [fragment, mk.injEq]
    exact ⟨h.sender, h.recipient, htag, hcontent, h.contentType, h.messageType, h.messageId,
      h.marked, hindex, htotal, h.timestamp, h.checksum, trivial⟩
  · intro h
    rw [h]
    exact
      { marked := rfl, checksum := rfl, messageId := rfl, timestamp := rfl, sender := rfl
        recipient := rfl, contentType := rfl, messageType := rfl, bare := ⟨rfl, rfl⟩
        index := UInt32.toNat_ofNat_of_lt' (Nat.lt_trans hplace htotal)
        total := UInt32.toNat_ofNat_of_lt' htotal }

theorem map_payload_fragments (limits : FragmentLimits) (whole : Envelope) :
    (whole.fragments limits).map (·.payload) = whole.shares limits := by
  refine List.ext_getElem ?_ fun place h₁ h₂ => ?_
  · rw [List.length_map, length_fragments]
  · simp [fragments, fragment]

theorem getElem?_fragments {whole : Envelope} (h : (whole.fragments limits)[place]? = some f) :
    place < (whole.shares limits).length ∧ f = whole.fragment (Digest.checksum whole.encode)
      (whole.shares limits).length place f.payload := by
  obtain ⟨hplace, rfl⟩ := List.getElem?_eq_some_iff.1 h
  rw [length_fragments] at hplace
  exact ⟨hplace, by simp [fragments, fragment]⟩

/-- **A message can be cut in one way only**, if its fragments can be counted. -/
theorem isCut_iff (hlt : ((e.completed fresh now).shares limits).length < 2 ^ 32) :
    e.IsCut limits.size (e.completed fresh now) fs ↔ fs = (e.completed fresh now).fragments limits := by
  constructor
  · intro h
    -- there is one way only to cut the octets, so the shares are those of the message
    have hshares : fs.map (·.payload) = (e.completed fresh now).shares limits :=
      h.shares.unique (isCutInto_chunks limits.size_pos _)
    have hlength : fs.length = ((e.completed fresh now).shares limits).length := by
      rw [← hshares, List.length_map]
    refine List.ext_getElem (by rw [length_fragments, hlength]) fun place h₁ h₂ => ?_
    have hf := h.fragments place fs[place] (List.getElem?_eq_getElem h₁)
    rw [hlength] at h₁ hf
    have hshare : ((e.completed fresh now).shares limits)[place] = fs[place].payload := by
      simp only [← hshares, List.getElem_map]
    -- and with its share the place tells the fragment
    rw [(isFragmentOf_iff hlt h₁).1 hf]
    simp only [fragments, List.getElem_mapIdx, hshare]
  · rintro rfl
    refine ⟨?_, fun place f hf => ?_⟩
    · rw [map_payload_fragments]
      exact isCutInto_chunks limits.size_pos _
    · obtain ⟨hplace, heq⟩ := getElem?_fragments hf
      rw [length_fragments]
      exact (isFragmentOf_iff hlt hplace).2 heq

end Cut

end Envelope

/-! ## Whom a message is for -/

/-- Whom the router takes a message that came in to be for. -/
inductive Heading
  | everybody
  | assistant
  | identity (target : String)
  | group (id sender : String)
  deriving DecidableEq, Repr

/-- Whom a message that came in is for. -/
def Exchange.heading (x : Exchange) (e : Envelope) : Heading :=
  if e.isNotice then .everybody
  else
    match e.deliveryKind with
    | .direct => if x.services.isAssistant e.recipient then .assistant else .identity e.recipient
    | .group => .group e.recipient e.sender

namespace Routing

/-- What is done with a message that is for somebody. -/
def toward (shard : Nat) (e : Envelope) (raw : Bytes) : Heading → Routing Unit
  | .everybody => change (·.broadcast shard raw)
  | .assistant => routeToAssistant shard e
  | .identity target => do
    let frames ← outboundFrames shard e raw
    deliver shard e target frames
  | .group _ _ => routeGroup shard e raw

/-- **The router goes by the heading.** -/
theorem run_route_inbound (shard : Nat) (e : Envelope) (raw : Bytes) (s : Errand) :
    (route shard { envelope := e, raw, origin := .inbound }).run.run s
      = (toward shard e raw (s.exchange.heading e)).run.run s := by
  rw [route, Exchange.heading]
  dsimp only
  cases e.isNotice with
  | true => rfl
  | false =>
      simp only [Bool.false_eq_true, if_false]
      cases e.deliveryKind with
      | group => rfl
      | direct =>
          dsimp only
          rw [routeDirect]
          refine (run_exchange_bind _ s).trans ?_
          cases s.exchange.services.isAssistant e.recipient <;> rfl

/-- **To cut a message does nothing to any shard.** -/
theorem shard?_outboundFrames (shard : Nat) (e : Envelope) (raw : Bytes) (s : Errand) (id : Nat) :
    ((outboundFrames shard e raw).run.run s).2.exchange.shard? id = s.exchange.shard? id := by
  cases hshard : s.exchange.shard? shard with
  | some t => rw [run_outboundFrames hshard]; rfl
  | none =>
      -- nobody splits anything at a shard that is not there
      have hraw : (outboundFrames shard e raw).run.run s = (.ok [raw], s) := by
        refine (run_exchange_bind _ s).trans ?_
        rw [hshard]
        rfl
      rw [hraw]

end Routing

namespace Envelope

/-- A fragment is for whom its message is for. -/
theorem heading_fragment {e whole f : Envelope} {total place : Nat}
    (h : e.IsFragmentOf whole total place f) (x : Exchange) : x.heading f = x.heading e := by
  rw [Exchange.heading, Exchange.heading, isNotice, isNotice, deliveryKind, deliveryKind, h.sender,
    h.recipient, h.messageType]

/-- A message that is larger than a frame may be takes two fragments at least. -/
theorem two_le_of_isOversized {limits : FragmentLimits} {e : Envelope}
    (h : e.isOversized limits = true) (fresh : String) (now : Int64) :
    2 ≤ (e.completed fresh now).encode.length ⌈/⌉ limits.size := by
  have hlarge : limits.size < e.encodedLength := of_decide_eq_true h
  have hcompleted := encodedLength_le_completed fresh now e
  rw [length_encode]
  -- one run would have room for the whole message, which is larger than the limit
  by_contra hlt
  have hle := (ceilDiv_le_iff_le_mul limits.size_pos).1 (Nat.le_of_lt_succ (Nat.not_le.1 hlt))
  omega

/-- **A message is cut exactly, and so that its fragments find their way.** Let `whole` be the message
with an identity and a time. If the runs of greatest length that its octets fill are more than the
cap, it is refused with the number of the octets, that of the runs, and the cap. Otherwise it comes to
as many fragments: to the one list of envelopes that carry its octets cut into such runs, in order,
and that are marked, numbered and addressed as fragments of it; two at least if the message was too
large for a frame. The router does with each what it does with one that is headed like the message.
Nothing changes at any shard when one of them makes the frames of a message, whatever comes of it. -/
theorem split_exact (limits : FragmentLimits) (fresh : String) (now : Int64) (e : Envelope) :
    let whole := e.completed fresh now
    let length := whole.encode.length
    let count := length ⌈/⌉ limits.size
    (match e.split limits fresh now with
      | .error fault => limits.cap.toNat < count ∧
          fault = .tooManyFragments length count limits.cap
      | .ok fs => count ≤ limits.cap.toNat ∧ fs.length = count ∧
          (e.isOversized limits = true → 2 ≤ fs.length) ∧
          (∀ gs, e.IsCut limits.size whole gs ↔ gs = fs) ∧
          ∀ f ∈ fs, ∀ (shard : Nat) (raw : Bytes) (s : Errand),
            (Routing.route shard { envelope := f, raw, origin := .inbound }).run.run s
              = (Routing.toward shard f raw (s.exchange.heading e)).run.run s) ∧
    ∀ (s : Errand) (shard : Nat) (raw : Bytes) (id : Nat),
      ((Routing.outboundFrames shard e raw).run.run s).2.exchange.shard? id
        = s.exchange.shard? id := by
  intro whole length count
  refine ⟨?_, fun s shard raw id => Routing.shard?_outboundFrames shard e raw s id⟩
  -- the number of runs is counted with a rounded division in both places
  have hcount : limits.required length = count :=
    (Nat.ceilDiv_eq_add_pred_div (a := length) (b := limits.size)).symm
  have hshares : (whole.shares limits).length = count := (length_shares limits whole).trans hcount
  rw [split_eq]
  rw [show limits.required (e.completed fresh now).encode.length = count from hcount]
  by_cases hcap : limits.cap.toNat < count
  · rw [if_pos hcap]
    exact ⟨hcap, rfl⟩
  · rw [if_neg hcap]
    have hle := Nat.not_lt.1 hcap
    have hlt := limits.cap.toNat_lt
    have hlength : (whole.fragments limits).length = count :=
      (length_fragments limits whole).trans hshares
    have hcut : ∀ gs, e.IsCut limits.size whole gs ↔ gs = whole.fragments limits :=
      fun gs => isCut_iff (hshares.trans_lt (by omega))
    refine ⟨hle, hlength, fun h => ?_, hcut, ?_⟩
    · rw [hlength]
      exact two_le_of_isOversized h fresh now
    · intro f hf shard raw s
      obtain ⟨place, hplace, rfl⟩ := List.getElem_of_mem hf
      have hfragment := ((hcut _).2 rfl).fragments place _ (List.getElem?_eq_getElem hplace)
      rw [Routing.run_route_inbound, heading_fragment hfragment]

/-- A message of 94 octets fills two runs of 47, and is refused where there may be one only. -/
theorem split_exact_filled :
    let e : Envelope := { sender := "ann", recipient := "bob", content := "hello", messageType := 1 }
    (∃ first second, e.split (.make 47 2 1000) "m1" 7 = .ok [first, second] ∧
      first.payload.length = 47 ∧ second.payload.length ≤ 47 ∧ second.deliveryKind = .direct) ∧
    e.split (.make 47 1 1000) "m1" 7 = .error (.tooManyFragments 94 2 1) := by
  intro e
  have hlength : (e.completed "m1" 7).encode.length = 94 := by
    rw [length_encode]
    decide
  constructor
  · have h := (split_exact (.make 47 2 1000) "m1" 7 e).1
    cases hsplit : e.split (.make 47 2 1000) "m1" 7 with
    | error fault =>
        rw [hsplit, hlength] at h
        exact absurd h.1 (by decide)
    | ok fs =>
        rw [hsplit, hlength] at h
        obtain ⟨-, hcount, -, hcut, -⟩ := h
        obtain ⟨hshares, hfragments⟩ := (hcut fs).2 rfl
        obtain ⟨first, second, rfl⟩ := List.length_eq_two.1 (hcount.trans (by decide))
        refine ⟨first, second, rfl, ?_, ?_, ?_⟩
        · exact hshares.full _ (by simp)
        · exact hshares.le _ (by simp)
        · rw [deliveryKind, (hfragments 1 second rfl).messageType]
          decide
  · have h := (split_exact (.make 47 1 1000) "m1" 7 e).1
    cases hsplit : e.split (.make 47 1 1000) "m1" 7 with
    | error fault =>
        rw [hsplit, hlength] at h
        rw [h.2]
        decide
    | ok fs =>
        rw [hsplit, hlength] at h
        exact absurd h.1 (by decide)

end Envelope

end Switchboard
