/-!
# Digits

What a digit is worth in a base, and what digits are worth together.
-/

namespace Switchboard.Text

/-- The value of a digit in a base of at most sixteen; the letters count in either case. -/
def digit? (base : Nat) (c : Char) : Option Nat :=
  let n :=
    if '0' ≤ c ∧ c ≤ '9' then c.toNat - 48
    else if 'a' ≤ c ∧ c ≤ 'f' then c.toNat - 87
    else if 'A' ≤ c ∧ c ≤ 'F' then c.toNat - 55
    else base
  if n < base then some n else none

theorem digit?_lt {base n : Nat} {c : Char} (h : digit? base c = some n) : n < base := by
  simp only [digit?, Option.ite_none_right_eq_some, Option.some.injEq] at h
  exact h.2 ▸ h.1

/-- The number that digits stand for, the greatest place first. -/
def number (base : Nat) (digits : List Char) : Nat :=
  digits.foldl (fun n c => n * base + (digit? base c).getD 0) 0

end Switchboard.Text
