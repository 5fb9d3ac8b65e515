import Switchboard.Text.Digit

/-!
# Runs of octets

Everything that crosses a socket is a list of octets. The list is the logical view: frames are
joined with `++`, cut with `take` and `drop`, and measured with `length`.
-/

namespace Switchboard

/-- A run of octets. -/
abbrev Bytes := List UInt8

namespace Bytes

/-- The lower-case hexadecimal digit for a number below sixteen. -/
def hexDigit (n : Nat) : Char :=
  if n < 10 then Char.ofNat (48 + n) else Char.ofNat (87 + n)

/-- Two lower-case hexadecimal digits for every octet. -/
def hex (bytes : Bytes) : String :=
  String.ofList (bytes.flatMap fun b => [hexDigit (b.toNat / 16), hexDigit (b.toNat % 16)])

/-- The octets that pairs of hexadecimal digits stand for. -/
def ofHex : List Char → Bytes
  | a :: b :: rest => UInt8.ofNat (Text.number 16 [a, b]) :: ofHex rest
  | _ => []

/-- The low `width` octets of `n`, least significant first. -/
def littleEndian : (width : Nat) → (n : Nat) → Bytes
  | 0, _ => []
  | width + 1, n => UInt8.ofNat (n % 256) :: littleEndian width (n / 256)

@[simp] theorem length_littleEndian (width n : Nat) : (littleEndian width n).length = width := by
  induction width generalizing n with
  | zero => rfl
  | succ width ih => simp [littleEndian, ih]

end Bytes

end Switchboard
