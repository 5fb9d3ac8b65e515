import Switchboard.Table

/-!
# Groups

A group is a set of identities, listed in ascending order. A group that nobody was ever added to has
no members.
-/

namespace Switchboard

/-- The members of each group, in ascending order. -/
abbrev Groups := Table String (List String)

namespace Groups

/-- A sorted list with one more element. -/
def insertSorted (a : String) : List String → List String
  | [] => [a]
  | b :: bs =>
    if a < b then a :: b :: bs
    else if a = b then b :: bs
    else b :: insertSorted a bs

/-- The members of a group. -/
def membersOf (g : Groups) (group : String) : List String := (g.get? group).getD []

def add (g : Groups) (group member : String) : Groups :=
  g.insert group (insertSorted member (g.membersOf group))

def remove (g : Groups) (group member : String) : Groups :=
  match g.get? group with
  | some members => g.insert group (members.filter (· ≠ member))
  | none => g

end Groups

end Switchboard
