/-!
# Points in time

Times are counted in milliseconds since the start of 1970 and written as calendar date and time of
day in universal time. Timers have a clock of their own, which was started at some other time.
-/

namespace Switchboard

/-- A time in milliseconds since the epoch. -/
abbrev Moment := Nat

namespace Time

/-- How far ahead the clock of the timers reaches: it counts seconds in 63 bits, and has already run
for a while. -/
def horizon : Nat := (Nat.pow 2 63 - Nat.pow 2 16) * 1000

/-- Whether a timer can go off again and again after such a time. -/
def isPeriod (duration : Nat) : Bool := 0 < duration && duration < horizon

/-- The year, month and day of a number of days since the epoch. Years are counted from March, so
that a leap day is the last day of its year, and in cycles of four hundred years. -/
def civil (days : Nat) : Nat × Nat × Nat :=
  let shifted := days + 719468
  let era := shifted / 146097
  let dayOfEra := shifted % 146097
  let yearOfEra := (dayOfEra - dayOfEra / 1460 + dayOfEra / 36524 - dayOfEra / 146096) / 365
  let dayOfYear := dayOfEra - (365 * yearOfEra + yearOfEra / 4 - yearOfEra / 100)
  let march := (5 * dayOfYear + 2) / 153
  let day := dayOfYear - (153 * march + 2) / 5 + 1
  let month := if march < 10 then march + 3 else march - 9
  (yearOfEra + era * 400 + (if month ≤ 2 then 1 else 0), month, day)

/-- A number with at least `width` digits. -/
def padded (width n : Nat) : String :=
  let digits := Nat.toDigits 10 n
  String.ofList (List.replicate (width - digits.length) '0' ++ digits)

/-- The text of a time. -/
def render (t : Moment) : String :=
  let seconds := t / 1000
  let (year, month, day) := civil (seconds / 86400)
  let hour := padded 2 (seconds / 3600 % 24)
  let minute := padded 2 (seconds / 60 % 60)
  let second := padded 2 (seconds % 60)
  s!"{padded 4 year}-{padded 2 month}-{padded 2 day}T{hour}:{minute}:{second}.{padded 3 (t % 1000)}Z"

end Time

end Switchboard
