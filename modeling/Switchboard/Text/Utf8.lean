import Switchboard.Bytes

/-!
# Text as octets

`octets` writes a text in UTF-8 and `decode` reads one back. A run of octets that is not text is
refused with the place where it stops being text: the index of the first character that is not
there, and how many octets of that character can still be read. `decodeLossy` never refuses; it
puts one replacement character for every such place.
-/

namespace Switchboard.Utf8

/-- Where a run of octets stops being text. -/
structure Fault where
  /-- The index of the first octet that is not part of a character. -/
  index : Nat
  /-- How many octets from there on belong together, at least one; nothing if the run ends before
  the character does. -/
  length : Option Nat
  deriving DecidableEq, Repr, Inhabited

/-- The UTF-8 octets of a text. -/
def octets (text : String) : Bytes := text.toByteArray.data.toList

/-- The ranges that the octets after a lead octet have to lie in, in order. An octet that starts no
character has none. -/
def tailRanges (lead : UInt8) : Option (List (UInt8 × UInt8)) :=
  let any : UInt8 × UInt8 := (0x80, 0xBF)
  if lead < 0x80 then some []
  else if lead < 0xC2 then none
  else if lead < 0xE0 then some [any]
  else if lead = 0xE0 then some [(0xA0, 0xBF), any]
  else if lead = 0xED then some [(0x80, 0x9F), any]
  else if lead < 0xF0 then some [any, any]
  else if lead = 0xF0 then some [(0x90, 0xBF), any, any]
  else if lead < 0xF4 then some [any, any, any]
  else if lead = 0xF4 then some [(0x80, 0x8F), any, any]
  else none

/-- How the octets after a lead octet fit its ranges. -/
inductive Tail
  /-- All of them are there. -/
  | whole
  /-- The one after `matched` octets, the lead counted, is out of its range. -/
  | broken (matched : Nat)
  /-- The run ends first. -/
  | cut

/-- Compares the octets after a lead octet with their ranges. -/
def matchTail : (matched : Nat) → List (UInt8 × UInt8) → Bytes → Tail
  | _, [], _ => .whole
  | _, _ :: _, [] => .cut
  | matched, (low, high) :: ranges, b :: bytes =>
    if low ≤ b ∧ b ≤ high then matchTail (matched + 1) ranges bytes else .broken matched

/-- Walks the characters of a run from `index` on, stepping over `skip` octets of the present one,
and gives the place where the first character is missing. A run that is text is missing one at
its end. -/
def locate (index skip : Nat) : Bytes → Fault
  | [] => ⟨index, none⟩
  | b :: bytes =>
    match skip with
    | skip + 1 => locate (index + 1) skip bytes
    | 0 =>
      match tailRanges b with
      | none => ⟨index, some 1⟩
      | some ranges =>
        match matchTail 1 ranges bytes with
        | .whole => locate (index + 1) ranges.length bytes
        | .broken matched => ⟨index, some matched⟩
        | .cut => ⟨index, none⟩

/-- The text with these octets, or the place where they stop being text. -/
def decode (bytes : Bytes) : Except Fault String :=
  match String.fromUTF8? ⟨bytes.toArray⟩ with
  | some text => .ok text
  | none => .error (locate 0 0 bytes)

/-- The character at the front of a run. -/
def firstChar? (bytes : Bytes) : Option Char :=
  (ByteArray.mk (bytes.take 4).toArray).utf8DecodeChar? 0

/-- The characters of a run, stepping over `skip` octets first, with one replacement character for
each place where none can be read. -/
def lossyChars (skip : Nat) : Bytes → List Char
  | [] => []
  | b :: bytes =>
    match skip with
    | skip + 1 => lossyChars skip bytes
    | 0 =>
      match firstChar? (b :: bytes) with
      | some c => c :: lossyChars (c.utf8Size - 1) bytes
      | none =>
        '\uFFFD' :: lossyChars (((locate 0 0 (b :: bytes)).length.getD (bytes.length + 1)) - 1) bytes

/-- The text with these octets, where what cannot be read becomes U+FFFD. -/
def decodeLossy (bytes : Bytes) : String := String.ofList (lossyChars 0 bytes)

/-- How a fault is told to a person. -/
def Fault.message (fault : Fault) : String :=
  match fault.length with
  | some n => s!"invalid utf-8 sequence of {n} bytes from index {fault.index}"
  | none => s!"incomplete utf-8 byte sequence from index {fault.index}"

theorem decode_octets (text : String) : decode (octets text) = .ok text := by
  have h : (ByteArray.mk (octets text).toArray) = text.toByteArray := by
    simp [octets]
  have hv : text.toByteArray.IsValidUTF8 := text.isValidUTF8
  simp [decode, h, String.fromUTF8?, hv, String.fromUTF8]

theorem octets_of_decode {bytes : Bytes} {text : String} (h : decode bytes = .ok text) :
    octets text = bytes := by
  unfold decode String.fromUTF8? at h
  split at h
  · rename_i t ht
    split at ht
    · cases ht
      cases h
      simp [octets, String.fromUTF8]
    · cases ht
  · cases h

end Switchboard.Utf8
