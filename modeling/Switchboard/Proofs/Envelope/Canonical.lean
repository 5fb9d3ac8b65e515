import Switchboard.Proofs.Envelope.RoundTrip

/-!
# The binary form is canonical

`decode_iff_starts`: a run of octets decodes to an envelope just when it starts with the octets of
that envelope. So every envelope has one binary form only, and the form tells where it ends: what
follows it is not looked at, no form is the beginning of another one, and a form that is cut short
is none. An envelope has to fit: its lengths travel in eight octets, which is enough for whatever a
machine can hold.
-/

namespace Switchboard.Envelope

variable {e e' : Envelope} {bytes : Bytes}

/-- What follows the octets of an envelope is not looked at. -/
theorem decode_encode_append (h : e.Fits) (rest : Bytes) : decode (e.encode ++ rest) = .ok e := by
  rw [decode, readEnvelope_encode h]

/-- A run decodes to an envelope just when it starts with the octets of the envelope. -/
theorem decode_eq_ok_iff : decode bytes = .ok e ↔ e.Fits ∧ e.encode <+: bytes := by
  constructor
  · intro hdecode
    obtain ⟨⟨rest, hbytes⟩, hfits⟩ := encode_append_of_decode hdecode
    exact ⟨hfits, rest, hbytes.symm⟩
  · intro hstarts
    obtain ⟨hfits, rest, rfl⟩ := hstarts
    exact decode_encode_append hfits rest

/-- No envelope's octets are the beginning of another one's. -/
theorem eq_of_starts (h : e.Fits) (h' : e'.Fits) (hstart : e'.encode <+: e.encode) :
    e' = e := by
  -- the longer run decodes to both of them
  have hshort : decode e.encode = .ok e' := decode_eq_ok_iff.2 ⟨h', hstart⟩
  have hlong : decode e.encode = .ok e := decode_encode h
  exact Except.ok.inj (hshort.symm.trans hlong)

/-- Octets of an envelope that are cut short are no envelope's. -/
theorem decode_take_ne_ok (h : e.Fits) {n : Nat} (hn : n < e.encode.length) (e' : Envelope) :
    decode (e.encode.take n) ≠ .ok e' := by
  intro hdecode
  obtain ⟨h', hstart⟩ := decode_eq_ok_iff.1 hdecode
  obtain rfl : e' = e := eq_of_starts h h' (hstart.trans (List.take_prefix n _))
  have hlength := hstart.length_le
  rw [List.length_take] at hlength
  omega

/-- **The binary form is exact, canonical and tells its own end**, and its length can be found
without writing it. -/
theorem decode_iff_starts (bytes : Bytes) (e : Envelope) :
    (decode bytes = .ok e ↔ e.Fits ∧ e.encode <+: bytes) ∧
    (e.Fits →
      (∀ rest, decode (e.encode ++ rest) = .ok e) ∧
      (∀ e' : Envelope, e'.Fits → e'.encode <+: e.encode ∨ e.encode <+: e'.encode → e' = e) ∧
      ∀ n < e.encode.length, ∀ e', decode (e.encode.take n) ≠ .ok e') ∧
    e.encode.length = e.encodedLength := by
  refine ⟨decode_eq_ok_iff, fun h => ⟨decode_encode_append h, ?_, ?_⟩, length_encode e⟩
  · intro e' h' hstart
    rcases hstart with hstart | hstart
    · exact eq_of_starts h h' hstart
    · exact (eq_of_starts h' h hstart).symm
  · exact fun n hn e' => decode_take_ne_ok h hn e'

/-- A fragment with a payload, with octets behind it and with its last octet cut off. -/
theorem decode_iff_starts_fragment :
    let e : Envelope := { sender := "ann", recipient := "bob", messageType := 1, messageId := "é"
                          isFragment := true, fragmentTotal := 2, timestamp := -1, payload := [1, 2] }
    e.Fits ∧ decode (e.encode ++ [255]) = .ok e ∧
      decode (e.encode.take (e.encodedLength - 1)) ≠ .ok e := by
  intro e
  have hlength : e.encodedLength = 91 := rfl
  have hfits : e.Fits := fits_of_length (by rw [length_encode, hlength]; decide)
  obtain ⟨-, hforms, hcount⟩ := decode_iff_starts (e.encode ++ [255]) e
  obtain ⟨hafter, -, hshort⟩ := hforms hfits
  refine ⟨hfits, hafter [255], hshort _ ?_ e⟩
  rw [hcount, hlength]
  decide

end Switchboard.Envelope
