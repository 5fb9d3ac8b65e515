import Switchboard.Table

/-!
# Registries

A shard's registry holds the session that speaks for each identity. Every connection has a session
of its own, so a connection that was replaced can be told from the one that replaced it: it cannot
remove it, whenever it tries.
-/

namespace Switchboard

/-- What tells one connection from every other. -/
abbrev Session := Nat

/-- The session that holds each identity. -/
abbrev Registry := Table String Session

namespace Registry

/-- The session that holds an identity. -/
def holder (r : Registry) (identity : String) : Option Session := r.get? identity

/-- Gives an identity to a session, and tells who held it. -/
def hold (r : Registry) (identity : String) (session : Session) : Option Session × Registry :=
  (r.get? identity, r.insert identity session)

/-- Takes an identity from a session, if that still holds it. -/
def release (r : Registry) (identity : String) (session : Session) : Bool × Registry :=
  if r.get? identity = some session then (true, r.erase identity) else (false, r)

/-- Takes an identity from whoever holds it, unless it is the session to keep. -/
def expel (r : Registry) (identity : String) (keep : Session) : Option Session × Registry :=
  match r.get? identity with
  | some session => if session = keep then (none, r) else (some session, r.erase identity)
  | none => (none, r)

variable {r : Registry} {identity : String} {session keep : Session}

theorem release_of_holder (h : r.holder identity = some session) :
    r.release identity session = (true, r.erase identity) := if_pos h

theorem release_of_ne (h : r.holder identity ≠ some session) :
    r.release identity session = (false, r) := if_neg h

theorem expel_of_holder (h : r.holder identity = some session) (hne : session ≠ keep) :
    r.expel identity keep = (some session, r.erase identity) := by
  rw [holder] at h
  rw [expel, h]
  exact if_neg hne

theorem expel_of_keep (h : ∀ holder, r.holder identity = some holder → holder = keep) :
    r.expel identity keep = (none, r) := by
  simp only [holder] at h
  rw [expel]
  split
  · next session hsession => exact if_pos (h session hsession)
  · rfl

/-- A session leaves just if it has its identity. -/
theorem release_fst (r : Registry) (identity : String) (session : Session) :
    (r.release identity session).1 = decide (r.holder identity = some session) := by
  by_cases h : r.holder identity = some session
  · rw [release_of_holder h, decide_eq_true h]
  · rw [release_of_ne h, decide_eq_false h]

end Registry

end Switchboard
