/-!
# The shortest decimal that reads back

A binary fraction stands for all the reals that round to it. `shortest` gives the decimal with the
fewest digits among them, and of several such the one nearest to the fraction itself.
-/

namespace Switchboard

/-- A positive decimal: `digits`, read as a whole number, times ten to the `scale`. -/
structure Decimal where
  digits : Nat
  scale : Int
  deriving DecidableEq, Repr, Inhabited

namespace Decimal

/-- The number of decimal digits of a number. -/
def width (n : Nat) : Nat := (Nat.toDigits 10 n).length

/-- The power of ten of the first digit. -/
def exponent (d : Decimal) : Int := d.scale + width d.digits - 1

/-- Moves up to `fuel` zeros from the end of the digits into the scale. -/
def strip : (fuel : Nat) → Decimal → Decimal
  | 0, d => d
  | fuel + 1, d =>
    if d.digits % 10 = 0 then strip fuel ⟨d.digits / 10, d.scale + 1⟩ else d

/-- The fraction `mantissa * 2 ^ power` over a common denominator with the two ends of the interval
of reals that round to it. -/
structure Interval where
  low : Nat
  value : Nat
  high : Nat
  denominator : Nat
  /-- Whether the ends round to the fraction too. -/
  closed : Bool

/-- The interval of the double `mantissa * 2 ^ power`. Below a power of two the doubles lie twice as
close. -/
def Interval.ofBinary (mantissa : Nat) (power : Int) : Interval :=
  let unit := Nat.pow 2 power.toNat
  let below := if mantissa = Nat.pow 2 52 ∧ power > -1074 then unit else 2 * unit
  { low := 4 * mantissa * unit - below
    value := 4 * mantissa * unit
    high := 4 * mantissa * unit + 2 * unit
    denominator := 4 * Nat.pow 2 (-power).toNat
    closed := mantissa % 2 == 0 }

namespace Interval

/-- A fraction `n / denominator` against `c * 10 ^ scale`: both sides as whole numbers. -/
def compared (i : Interval) (n c : Nat) (scale : Int) : Nat × Nat :=
  (n * Nat.pow 10 (-scale).toNat, c * i.denominator * Nat.pow 10 scale.toNat)

/-- Whether `c * 10 ^ scale` rounds to the fraction. -/
def contains (i : Interval) (c : Nat) (scale : Int) : Bool :=
  let (low, x) := i.compared i.low c scale
  let (high, y) := i.compared i.high c scale
  if i.closed then low ≤ x && y ≤ high else low < x && y < high

/-- The greatest `c` with `c * 10 ^ scale` at most the fraction. -/
def floorAt (i : Interval) (scale : Int) : Nat :=
  i.value * Nat.pow 10 (-scale).toNat / (i.denominator * Nat.pow 10 scale.toNat)

/-- The power of ten of the first digit of a fraction below one: the least number of tens that
lift it to one, negated. -/
def smallExponent (i : Interval) : (fuel : Nat) → (tens : Nat) → Int
  | 0, tens => -(tens : Int)
  | fuel + 1, tens =>
    if i.denominator ≤ i.value * Nat.pow 10 tens then -(tens : Int) else i.smallExponent fuel (tens + 1)

/-- The power of ten of the first digit. -/
def exponent (i : Interval) : Int :=
  if i.denominator ≤ i.value then (Decimal.width (i.value / i.denominator) : Int) - 1
  else i.smallExponent 400 1

/-- The nearest decimal on the grid of multiples of `10 ^ scale`, if it rounds to the fraction. -/
def onGrid? (i : Interval) (scale : Int) : Option Decimal :=
  let c := i.floorAt scale
  match i.contains c scale, i.contains (c + 1) scale with
  | true, false => some ⟨c, scale⟩
  | false, true => some ⟨c + 1, scale⟩
  | false, false => none
  | true, true =>
    let (v, x) := i.compared i.value c scale
    let (_, y) := i.compared i.value (c + 1) scale
    if v - x < y - v ∨ (v - x = y - v ∧ c % 2 = 0) then some ⟨c, scale⟩ else some ⟨c + 1, scale⟩

/-- The first of the grids of `digits`, `digits + 1`, … digits that has a decimal that rounds to
the fraction. Seventeen digits always have one. -/
def search (i : Interval) : (fuel : Nat) → (digits : Nat) → Decimal
  | 0, digits => ⟨i.floorAt (i.exponent - digits + 1), i.exponent - digits + 1⟩
  | fuel + 1, digits =>
    match i.onGrid? (i.exponent - digits + 1) with
    | some d => d
    | none => i.search fuel (digits + 1)

end Interval

/-- The shortest decimal that reads back as `mantissa * 2 ^ power`. -/
def shortest (mantissa : Nat) (power : Int) : Decimal :=
  Decimal.strip 17 ((Interval.ofBinary mantissa power).search 17 1)

/-- The sign, mantissa and power of two of a finite double. -/
def parts (x : Float) : Bool × Nat × Int :=
  let bits := x.toBits.toNat
  let fraction : Nat := bits % Nat.pow 2 52
  let biased : Nat := bits / Nat.pow 2 52 % Nat.pow 2 11
  let negative : Bool := bits / Nat.pow 2 63 == 1
  if biased = 0 then (negative, fraction, -1074)
  else (negative, fraction + Nat.pow 2 52, (biased : Int) - 1075)

/-- How the numbers of a format are laid out. -/
structure Layout where
  /-- The least exponent that is written without an exponent. -/
  positionalFrom : Int
  /-- The greatest exponent that is written without an exponent. -/
  positionalTo : Int

/-- A decimal laid out: always with a point unless it has an exponent, which always has a sign. -/
def Layout.render (layout : Layout) (d : Decimal) : List Char :=
  let digits := Nat.toDigits 10 d.digits
  let e := d.exponent
  if layout.positionalFrom ≤ e ∧ e ≤ layout.positionalTo then
    if e < 0 then
      ['0', '.'] ++ List.replicate ((-e).toNat - 1) '0' ++ digits
    else
      let whole := digits.take (e.toNat + 1)
      let fraction := digits.drop (e.toNat + 1)
      whole ++ List.replicate (e.toNat + 1 - digits.length) '0' ++ ['.']
        ++ (if fraction.isEmpty then ['0'] else fraction)
  else
    let fraction := digits.drop 1
    digits.take 1 ++ (if fraction.isEmpty then [] else '.' :: fraction)
      ++ ['e', if e < 0 then '-' else '+'] ++ Nat.toDigits 10 e.natAbs

/-- The text of a finite double. -/
def Layout.text (layout : Layout) (x : Float) : String :=
  let (negative, mantissa, power) := parts x
  let body := if mantissa = 0 then ['0', '.', '0'] else layout.render (shortest mantissa power)
  String.ofList (if negative then '-' :: body else body)

end Decimal

end Switchboard
