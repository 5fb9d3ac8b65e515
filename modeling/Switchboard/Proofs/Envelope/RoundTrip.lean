import Mathlib.Algebra.Group.Nat.Defs
import Switchboard.Envelope.Binary

/-!
# The binary form reads back

A reader is *exact* for a writer when it takes off the front of a run just what the writer puts
there: every value that fits its field reads back with whatever follows it, and what is read was
written so. Exactness of the fields gives it for the envelope: `readEnvelope_encode` reads an
envelope back from its own octets, and `encode_append_of_readEnvelope` says that nothing else reads
as it. Lengths travel in eight octets, so an envelope fits if its octets can be counted in them.
-/

namespace Switchboard

namespace Binary

/-- A reader takes off the front of a run just what a writer puts there. -/
structure Exact {α : Type} (read : Reader α) (write : α → Bytes) (Fits : α → Prop) : Prop where
  /-- What fits is read back, and what follows it is left. -/
  read_write : ∀ (a : α) (rest : Bytes), Fits a → read (write a ++ rest) = .ok (a, rest)
  /-- What is read was written, and fits. -/
  eq_write : ∀ {bytes rest : Bytes} {a : α}, read bytes = .ok (a, rest) →
    bytes = write a ++ rest ∧ Fits a

/-! ## Words -/

theorem readWord_littleEndian (width : Nat) : ∀ (n : Nat) (rest : Bytes), n < 256 ^ width →
    readWord width (Bytes.littleEndian width n ++ rest) = .ok (n, rest) := by
  induction width with
  | zero =>
      intro n rest h
      have h0 : n = 0 := by simpa using h
      rw [h0]
      rfl
  | succ width ih =>
      intro n rest h
      have hdiv : n / 256 < 256 ^ width := by
        rw [Nat.pow_succ] at h
        omega
      have hlow : (UInt8.ofNat (n % 256)).toNat = n % 256 := by
        rw [UInt8.toNat_ofNat']
        omega
      rw [Bytes.littleEndian, List.cons_append, readWord, ih _ _ hdiv]
      simp only [hlow]
      rw [Nat.mod_add_div]

theorem littleEndian_of_readWord (width : Nat) : ∀ {bytes rest : Bytes} {n : Nat},
    readWord width bytes = .ok (n, rest) →
    bytes = Bytes.littleEndian width n ++ rest ∧ n < 256 ^ width := by
  induction width with
  | zero =>
      intro bytes rest n h
      obtain ⟨rfl, rfl⟩ : 0 = n ∧ bytes = rest := by simpa [readWord] using h
      exact ⟨rfl, by decide⟩
  | succ width ih =>
      intro bytes rest n h
      cases bytes with
      | nil => simp [readWord] at h
      | cons b bytes =>
          rw [readWord] at h
          split at h
          · rename_i m rest' hm
            obtain ⟨hbytes, hlt⟩ := ih hm
            obtain ⟨rfl, rfl⟩ : b.toNat + 256 * m = n ∧ rest' = rest := by simpa using h
            have hb : b.toNat < 256 := b.toNat_lt
            -- the first octet is the lowest digit, and the rest is the word above it
            have hlow : (b.toNat + 256 * m) % 256 = b.toNat := by omega
            have hhigh : (b.toNat + 256 * m) / 256 = m := by omega
            refine ⟨?_, ?_⟩
            · rw [Bytes.littleEndian, hlow, hhigh, UInt8.ofNat_toNat, List.cons_append, ← hbytes]
            · rw [Nat.pow_succ]
              omega
          · cases h

/-! ## Fields -/

@[simp] theorem length_octets (text : String) : (Utf8.octets text).length = text.utf8ByteSize := by
  rw [Utf8.octets, Array.length_toList]
  rfl

/-- A text whose length can be written in eight octets. -/
def TextFits (text : String) : Prop := text.utf8ByteSize < 256 ^ 8

/-- A payload whose length can be written in eight octets. -/
def PayloadFits (payload : Bytes) : Prop := payload.length < 256 ^ 8

theorem exact_text : Exact readText writeText TextFits where
  read_write text rest h := by
    have hlen : ¬ (Utf8.octets text ++ rest).length < text.utf8ByteSize := by
      rw [List.length_append, length_octets]
      omega
    rw [readText, writeText, List.append_assoc, readWord_littleEndian 8 _ _ h]
    simp only [hlen, if_false]
    rw [List.take_left' (length_octets text), List.drop_left' (length_octets text),
      Utf8.decode_octets]
  eq_write {bytes rest text} h := by
    rw [readText] at h
    split at h
    · cases h
    · rename_i length after hword
      obtain ⟨hbytes, hlt⟩ := littleEndian_of_readWord 8 hword
      split at h
      · cases h
      · rename_i hle
        split at h
        · rename_i text' hdecode
          obtain ⟨rfl, rfl⟩ : text' = text ∧ after.drop length = rest := by simpa using h
          -- a text has one encoding only, so the octets that were cut off are its own
          have hoct : Utf8.octets text' = after.take length := Utf8.octets_of_decode hdecode
          have hsize : text'.utf8ByteSize = length := by
            rw [← length_octets, hoct, List.length_take]
            omega
          refine ⟨?_, ?_⟩
          · rw [writeText, hsize, hoct, List.append_assoc, List.take_append_drop, hbytes]
          · rw [TextFits, hsize]
            exact hlt
        · cases h

theorem exact_payload : Exact readPayload writePayload PayloadFits where
  read_write payload rest h := by
    have hlen : ¬ (payload ++ rest).length < payload.length := by
      rw [List.length_append]
      omega
    rw [readPayload, writePayload, List.append_assoc, readWord_littleEndian 8 _ _ h]
    simp only [hlen, if_false]
    rw [List.take_left' rfl, List.drop_left' rfl]
  eq_write {bytes rest payload} h := by
    rw [readPayload] at h
    split at h
    · cases h
    · rename_i length after hword
      obtain ⟨hbytes, hlt⟩ := littleEndian_of_readWord 8 hword
      split at h
      · cases h
      · rename_i hle
        obtain ⟨rfl, rfl⟩ : after.take length = payload ∧ after.drop length = rest := by
          simpa using h
        have hsize : (after.take length).length = length := by
          rw [List.length_take]
          omega
        refine ⟨?_, ?_⟩
        · rw [writePayload, hsize, List.append_assoc, List.take_append_drop, hbytes]
        · rw [PayloadFits, hsize]
          exact hlt

theorem exact_flag : Exact readFlag writeFlag fun _ => True where
  read_write flag rest _ := by cases flag <;> rfl
  eq_write {bytes rest flag} h := by
    cases bytes with
    | nil => simp [readFlag] at h
    | cons b bytes =>
        rw [readFlag] at h
        split at h
        · rename_i hb
          obtain ⟨rfl, rfl⟩ : false = flag ∧ bytes = rest := by simpa using h
          exact ⟨by rw [hb]; rfl, trivial⟩
        · split at h
          · rename_i hb
            obtain ⟨rfl, rfl⟩ : true = flag ∧ bytes = rest := by simpa using h
            exact ⟨by rw [hb]; rfl, trivial⟩
          · cases h

/-- A field that is written as a word reads back if the word tells its value and every word is some
value's. -/
theorem exact_word {α : Type} (width : Nat) (toWord : α → Nat) (ofWord : Nat → α)
    (h : ∀ a, toWord a < 256 ^ width) (hof : ∀ a, ofWord (toWord a) = a)
    (hto : ∀ n, n < 256 ^ width → toWord (ofWord n) = n) :
    Exact (fun bytes => do let (n, rest) ← readWord width bytes; return (ofWord n, rest))
      (fun a => Bytes.littleEndian width (toWord a)) fun _ => True where
  read_write a rest _ := by
    simp only [readWord_littleEndian width _ _ (h a)]
    show Except.ok (ofWord (toWord a), rest) = _
    rw [hof]
  eq_write {bytes rest a} hread := by
    cases hword : readWord width bytes with
    | error fault =>
        rw [hword] at hread
        cases hread
    | ok word =>
        obtain ⟨n, after⟩ := word
        obtain ⟨hbytes, hlt⟩ := littleEndian_of_readWord width hword
        rw [hword] at hread
        obtain ⟨rfl, rfl⟩ : ofWord n = a ∧ after = rest := by
          simpa [bind, Except.bind, pure, Except.pure] using hread
        exact ⟨by rw [hto n hlt, hbytes], trivial⟩

theorem exact_uint32 : Exact readUInt32 writeUInt32 fun _ => True :=
  exact_word 4 UInt32.toNat UInt32.ofNat (fun n => n.toNat_lt) (fun _ => UInt32.ofNat_toNat)
    fun n h => by rw [UInt32.toNat_ofNat']; omega

theorem exact_int32 : Exact readInt32 writeInt32 fun _ => True :=
  exact_word 4 (fun n : Int32 => n.toUInt32.toNat) (fun n => (UInt32.ofNat n).toInt32)
    (fun n => n.toUInt32.toNat_lt)
    (fun n => by simp only [UInt32.ofNat_toNat, Int32.toInt32_toUInt32])
    fun n h => by simp only [UInt32.toUInt32_toInt32, UInt32.toNat_ofNat']; omega

theorem exact_int64 : Exact readInt64 writeInt64 fun _ => True :=
  exact_word 8 (fun n : Int64 => n.toUInt64.toNat) (fun n => (UInt64.ofNat n).toInt64)
    (fun n => n.toUInt64.toNat_lt)
    (fun n => by simp only [UInt64.ofNat_toNat, Int64.toInt64_toUInt64])
    fun n h => by simp only [UInt64.toUInt64_toInt64, UInt64.toNat_ofNat']; omega

/-! ## The envelope -/

/-- What a chain of readers gives was given by its first one and by the rest of the chain. -/
theorem bind_eq_ok {ε α β : Type} {read : Except ε α} {next : α → Except ε β} {b : β}
    (h : read >>= next = .ok b) : ∃ a, read = .ok a ∧ next a = .ok b := by
  cases read with
  | error fault => cases h
  | ok a => exact ⟨a, rfl, h⟩

end Binary

open Binary

namespace Envelope

/-- An envelope whose lengths can be written in eight octets. -/
structure Fits (e : Envelope) : Prop where
  sender : TextFits e.sender
  recipient : TextFits e.recipient
  tag : TextFits e.tag
  content : TextFits e.content
  messageId : TextFits e.messageId
  checksum : TextFits e.checksum
  payload : PayloadFits e.payload

theorem readEnvelope_encode {e : Envelope} (h : e.Fits) (rest : Bytes) :
    readEnvelope (e.encode ++ rest) = .ok (e, rest) := by
  have ok_bind : ∀ {α β : Type} (a : α) (f : α → Except Binary.Fault β),
      (Except.ok a >>= f) = f a := fun _ _ => rfl
  simp only [readEnvelope, encode, List.append_assoc, ok_bind,
    exact_text.read_write _ _ h.sender, exact_text.read_write _ _ h.recipient,
    exact_text.read_write _ _ h.tag, exact_text.read_write _ _ h.content,
    exact_int32.read_write _ _ trivial, exact_text.read_write _ _ h.messageId,
    exact_flag.read_write _ _ trivial, exact_uint32.read_write _ _ trivial,
    exact_int64.read_write _ _ trivial, exact_text.read_write _ _ h.checksum,
    exact_payload.read_write _ _ h.payload]
  rfl

/-- Whatever reads as an envelope starts with its octets. -/
theorem encode_append_of_readEnvelope {bytes rest : Bytes} {e : Envelope}
    (h : readEnvelope bytes = .ok (e, rest)) : bytes = e.encode ++ rest ∧ e.Fits := by
  unfold readEnvelope at h
  -- field by field: what each reader took, and what it left to the next
  obtain ⟨⟨sender, b₁⟩, h₁, h⟩ := bind_eq_ok h
  obtain ⟨⟨recipient, b₂⟩, h₂, h⟩ := bind_eq_ok h
  obtain ⟨⟨tag, b₃⟩, h₃, h⟩ := bind_eq_ok h
  obtain ⟨⟨content, b₄⟩, h₄, h⟩ := bind_eq_ok h
  obtain ⟨⟨contentType, b₅⟩, h₅, h⟩ := bind_eq_ok h
  obtain ⟨⟨messageType, b₆⟩, h₆, h⟩ := bind_eq_ok h
  obtain ⟨⟨messageId, b₇⟩, h₇, h⟩ := bind_eq_ok h
  obtain ⟨⟨isFragment, b₈⟩, h₈, h⟩ := bind_eq_ok h
  obtain ⟨⟨fragmentIndex, b₉⟩, h₉, h⟩ := bind_eq_ok h
  obtain ⟨⟨fragmentTotal, b₁₀⟩, h₁₀, h⟩ := bind_eq_ok h
  obtain ⟨⟨timestamp, b₁₁⟩, h₁₁, h⟩ := bind_eq_ok h
  obtain ⟨⟨checksum, b₁₂⟩, h₁₂, h⟩ := bind_eq_ok h
  obtain ⟨⟨payload, b₁₃⟩, h₁₃, h⟩ := bind_eq_ok h
  cases h
  -- and back: what it took was written so
  obtain ⟨rfl, fits₁⟩ := exact_text.eq_write h₁
  obtain ⟨rfl, fits₂⟩ := exact_text.eq_write h₂
  obtain ⟨rfl, fits₃⟩ := exact_text.eq_write h₃
  obtain ⟨rfl, fits₄⟩ := exact_text.eq_write h₄
  obtain ⟨rfl, -⟩ := exact_int32.eq_write h₅
  obtain ⟨rfl, -⟩ := exact_int32.eq_write h₆
  obtain ⟨rfl, fits₇⟩ := exact_text.eq_write h₇
  obtain ⟨rfl, -⟩ := exact_flag.eq_write h₈
  obtain ⟨rfl, -⟩ := exact_uint32.eq_write h₉
  obtain ⟨rfl, -⟩ := exact_uint32.eq_write h₁₀
  obtain ⟨rfl, -⟩ := exact_int64.eq_write h₁₁
  obtain ⟨rfl, fits₁₂⟩ := exact_text.eq_write h₁₂
  obtain ⟨rfl, fits₁₃⟩ := exact_payload.eq_write h₁₃
  refine ⟨?_, fits₁, fits₂, fits₃, fits₄, fits₇, fits₁₂, fits₁₃⟩
  simp only [encode, List.append_assoc]

/-- Decoding undoes encoding. -/
theorem decode_encode {e : Envelope} (h : e.Fits) : decode e.encode = .ok e := by
  have hread := readEnvelope_encode h []
  rw [List.append_nil] at hread
  rw [decode, hread]

/-- A run that decodes starts with the octets of its envelope. -/
theorem encode_append_of_decode {bytes : Bytes} {e : Envelope} (h : decode bytes = .ok e) :
    (∃ rest, bytes = e.encode ++ rest) ∧ e.Fits := by
  rw [decode] at h
  split at h
  · rename_i e' rest hread
    cases h
    obtain ⟨hbytes, hfits⟩ := encode_append_of_readEnvelope hread
    exact ⟨⟨rest, hbytes⟩, hfits⟩
  · cases h

/-- The length found without writing is the length of what is written. -/
theorem length_encode (e : Envelope) : e.encode.length = e.encodedLength := by
  simp only [encode, encodedLength, emptySize, writeText, writePayload, writeFlag, writeInt32,
    writeUInt32, writeInt64, List.length_append, List.length_cons, List.length_nil,
    Bytes.length_littleEndian, length_octets]
  omega

/-- An envelope fits if its octets can be counted in eight octets. -/
theorem fits_of_length {e : Envelope} (h : e.encode.length < 256 ^ 8) : e.Fits := by
  rw [length_encode, encodedLength] at h
  exact ⟨by rw [TextFits]; omega, by rw [TextFits]; omega, by rw [TextFits]; omega,
    by rw [TextFits]; omega, by rw [TextFits]; omega, by rw [TextFits]; omega,
    by rw [PayloadFits]; omega⟩

end Envelope

end Switchboard
