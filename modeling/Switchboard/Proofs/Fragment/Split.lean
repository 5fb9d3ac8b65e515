import Switchboard.Fragment.Split
import Switchboard.Proofs.Envelope.RoundTrip

/-!
# What splitting produces

The shares of a message are its octets cut into runs: joined in order they are the octets again
(`flatten_chunks`), and there are as many as the octets fill (`length_chunks`). `split` gives one
fragment for each share, in order, or refuses when there would be more than the cap allows.
-/

namespace Switchboard

/-! ## Shares -/

theorem chunks_cons {size : Nat} (size_pos : 0 < size) {octets : Bytes} (h : octets ≠ []) :
    chunks size size_pos octets
      = octets.take size :: chunks size size_pos (octets.drop size) := by
  rw [chunks, if_neg (by simpa [List.isEmpty_iff] using h)]

theorem chunks_nil {size : Nat} (size_pos : 0 < size) : chunks size size_pos [] = [] := by
  rw [chunks]
  rfl

/-- Octets are done with, or a run of them can be cut off, and what is left is shorter. -/
theorem chunks_induction {size : Nat} (size_pos : 0 < size) {motive : Bytes → Prop}
    (nil : motive [])
    (cut : ∀ octets : Bytes, octets ≠ [] → motive (octets.drop size) → motive octets)
    (octets : Bytes) : motive octets := by
  induction hn : octets.length using Nat.strongRecOn generalizing octets with
  | ind n ih =>
      by_cases h : octets = []
      · rw [h]
        exact nil
      · refine cut octets h (ih (octets.drop size).length ?_ _ rfl)
        have := List.length_pos_iff.mpr h
        rw [List.length_drop]
        omega

theorem flatten_chunks {size : Nat} (size_pos : 0 < size) (octets : Bytes) :
    (chunks size size_pos octets).flatten = octets := by
  induction octets using chunks_induction size_pos with
  | nil => rw [chunks_nil]; rfl
  | cut octets h ih =>
      rw [chunks_cons size_pos h, List.flatten_cons, ih, List.take_append_drop]

theorem length_chunks {size : Nat} (size_pos : 0 < size) (octets : Bytes) :
    (chunks size size_pos octets).length = (octets.length + size - 1) / size := by
  induction octets using chunks_induction size_pos with
  | nil =>
      rw [chunks_nil, List.length_nil, List.length_nil, Nat.div_eq_of_lt (by omega)]
  | cut octets h ih =>
      have hpos := List.length_pos_iff.mpr h
      rw [chunks_cons size_pos h, List.length_cons, ih, List.length_drop]
      by_cases hle : octets.length ≤ size
      · -- the last run: nothing is left behind it
        rw [show octets.length - size = 0 by omega, Nat.div_eq_of_lt (by omega)]
        rw [show octets.length + size - 1 = (octets.length - 1) + size by omega,
          Nat.add_div_right _ size_pos, Nat.div_eq_of_lt (by omega)]
      · -- a whole run is cut off, which is one more
        rw [show octets.length + size - 1 = (octets.length - size + size - 1) + size by omega,
          Nat.add_div_right _ size_pos]

/-- No share is longer than all octets together. -/
theorem length_le_of_mem_chunks {size : Nat} (size_pos : 0 < size) {octets share : Bytes}
    (h : share ∈ chunks size size_pos octets) : share.length ≤ octets.length := by
  have hsub := (List.sublist_flatten_of_mem h).length_le
  rwa [flatten_chunks] at hsub

namespace Envelope

/-- The octets of an envelope are never none. -/
theorem encode_ne_nil (e : Envelope) : e.encode ≠ [] := by
  have h := length_encode e
  rw [encodedLength, emptySize] at h
  intro hnil
  rw [hnil, List.length_nil] at h
  omega

/-- The shares of a message. -/
def shares (limits : FragmentLimits) (e : Envelope) : List Bytes :=
  chunks limits.size limits.size_pos e.encode

theorem length_shares (limits : FragmentLimits) (e : Envelope) :
    (e.shares limits).length = limits.required e.encode.length :=
  length_chunks limits.size_pos e.encode

theorem shares_ne_nil (limits : FragmentLimits) (e : Envelope) : e.shares limits ≠ [] := by
  rw [shares, chunks_cons limits.size_pos (encode_ne_nil e)]
  exact List.cons_ne_nil _ _

/-- The fragments of a message, one for each share. -/
def fragments (limits : FragmentLimits) (e : Envelope) : List Envelope :=
  (e.shares limits).mapIdx fun index share =>
    e.fragment (Digest.checksum e.encode) (e.shares limits).length index share

theorem length_fragments (limits : FragmentLimits) (e : Envelope) :
    (e.fragments limits).length = (e.shares limits).length := by
  rw [fragments, List.length_mapIdx]

/-- Every message has a fragment, since it has octets. -/
theorem fragments_ne_nil (limits : FragmentLimits) (e : Envelope) : e.fragments limits ≠ [] := by
  intro hnil
  have hlength := e.length_fragments limits
  rw [hnil] at hlength
  exact e.shares_ne_nil limits (List.eq_nil_of_length_eq_zero hlength.symm)

/-- Splitting gives the fragments of the completed message if they are not too many. -/
theorem split_eq (limits : FragmentLimits) (fresh : String) (now : Int64) (e : Envelope) :
    e.split limits fresh now =
      if limits.cap.toNat < limits.required (e.completed fresh now).encode.length then
        .error (.tooManyFragments (e.completed fresh now).encode.length
          (limits.required (e.completed fresh now).encode.length) limits.cap)
      else .ok ((e.completed fresh now).fragments limits) := by
  rw [split, fragments, length_shares]
  rfl

theorem eq_fragments_of_split {limits : FragmentLimits} {fresh : String} {now : Int64}
    {e : Envelope} {fs : List Envelope} (h : e.split limits fresh now = .ok fs) :
    fs = (e.completed fresh now).fragments limits ∧ fs.length ≤ limits.cap.toNat := by
  rw [split_eq] at h
  split at h
  · cases h
  · rename_i hle
    cases h
    refine ⟨rfl, ?_⟩
    rw [length_fragments, length_shares]
    omega

/-- A fragment of a message carries one of its shares and that share's place. -/
theorem mem_fragments {limits : FragmentLimits} {e f : Envelope} (h : f ∈ e.fragments limits) :
    ∃ (index : Nat) (share : Bytes), (e.shares limits)[index]? = some share ∧
      f = e.fragment (Digest.checksum e.encode) (e.shares limits).length index share := by
  obtain ⟨index, hindex, hf⟩ := List.mem_mapIdx.mp h
  exact ⟨index, (e.shares limits)[index], List.getElem?_eq_getElem hindex, hf.symm⟩

/-- A message that has an identity or is given one has one. -/
theorem completed_messageId_ne {fresh : String} (hfresh : fresh ≠ "") (now : Int64)
    (e : Envelope) : (e.completed fresh now).messageId ≠ "" := by
  rw [completed]
  by_cases h : e.messageId = ""
  · simp only [h, if_true]
    exact hfresh
  · simp only [h, if_false]
    exact h

/-- A message that is completed is not shorter for it. -/
theorem encodedLength_le_completed (fresh : String) (now : Int64) (e : Envelope) :
    e.encodedLength ≤ (e.completed fresh now).encodedLength := by
  rw [encodedLength, encodedLength, completed]
  dsimp only
  split
  · next hid =>
      rw [hid, String.utf8ByteSize_empty]
      omega
  · exact Nat.le_refl _

end Envelope

/-! ## Fragments on the wire -/

theorem utf8ByteSize_ofList_le (chars : List Char) :
    (String.ofList chars).utf8ByteSize ≤ 4 * chars.length := by
  induction chars with
  | nil => exact Nat.le_refl 0
  | cons c chars ih =>
      have hchar : (String.ofList [c]).utf8ByteSize = c.utf8Size := String.utf8ByteSize_singleton
      have hsize := c.utf8Size_le_four
      rw [← List.singleton_append, String.ofList_append, String.utf8ByteSize_append, hchar,
        List.length_append, List.length_singleton]
      omega

theorem length_sha256 (octets : Bytes) : (Digest.sha256 octets).length = 32 := by
  simp only [Digest.sha256, Digest.State.octets, List.flatMap_cons, List.flatMap_nil,
    List.length_append, List.length_reverse, Bytes.length_littleEndian, List.length_nil]

theorem textFits_empty : Binary.TextFits "" := by
  rw [Binary.TextFits]
  decide

/-- A digest has two hexadecimal digits for each of thirty-two octets. -/
theorem length_checksum (octets : Bytes) : (Digest.checksum octets).length = 64 := by
  rw [Digest.checksum, Bytes.hex, String.length_ofList, List.length_flatMap]
  simp only [List.length_cons, List.length_nil, List.map_const', length_sha256]
  rfl

/-- A digest is a short text. -/
theorem textFits_checksum (octets : Bytes) : Binary.TextFits (Digest.checksum octets) := by
  have hsize := utf8ByteSize_ofList_le (Digest.checksum octets).toList
  rw [String.ofList_toList, String.length_toList, length_checksum] at hsize
  rw [Binary.TextFits]
  omega

namespace Envelope

/-- The fragments of a message that can be measured can be written and read. -/
theorem fits_of_mem_fragments {limits : FragmentLimits} {e f : Envelope}
    (hlength : e.encode.length < 256 ^ 8) (h : f ∈ e.fragments limits) : f.Fits := by
  have hfits := fits_of_length hlength
  obtain ⟨index, share, hshare, rfl⟩ := mem_fragments h
  have hle := length_le_of_mem_chunks limits.size_pos (List.mem_of_getElem? hshare)
  exact
    { sender := hfits.sender, recipient := hfits.recipient
      tag := textFits_empty, content := textFits_empty
      messageId := hfits.messageId, checksum := textFits_checksum _
      payload := Nat.lt_of_le_of_lt hle hlength }

end Envelope

end Switchboard
