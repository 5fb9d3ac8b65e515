import Switchboard.Text.Quoted

/-!
# Bounded queues

Every hand-over inside the exchange goes through a bounded queue, first in, first out. An offer
never waits: it is refused when the queue is full or its receiver is gone, and then nothing has
changed. A receiver that only stops listening may still take what has been accepted; one that is
dropped takes it along.
-/

namespace Switchboard

/-- What has become of a queue's receiver. -/
inductive Intake
  | listening
  /-- It takes what is there and nothing new. -/
  | closed
  /-- It is gone, and so is what was there. -/
  | dropped
  deriving DecidableEq, Repr

/-- Why an offer is refused. -/
inductive Refusal
  | full
  | closed
  deriving DecidableEq, Repr

/-- What comes back of an offer that is refused: the item that was offered, and why. -/
structure Returned (α : Type) where
  refusal : Refusal
  item : α
  deriving DecidableEq, Repr

/-- A queue with room for `capacity` items, the oldest first. -/
structure Queue (α : Type) where
  capacity : Nat
  items : List α
  intake : Intake
  capacity_pos : 0 < capacity
  bounded : items.length ≤ capacity

/-- What a receiver finds. -/
inductive Receipt (α : Type)
  | item (a : α)
  | empty
  /-- Nothing is left, and nothing will come. -/
  | disconnected
  /-- There is no receiver any more. -/
  | dropped
  deriving DecidableEq, Repr

namespace Queue

variable {α : Type}

/-- An empty queue with room for at least one item. -/
def new (capacity : Nat) : Queue α where
  capacity := max 1 capacity
  items := []
  intake := .listening
  capacity_pos := by omega
  bounded := Nat.zero_le _

/-- The greatest capacity with which a queue can be made. -/
def greatestCapacity : Nat := Nat.pow 2 61 - 1

/-- The number of items that wait. -/
def depth (q : Queue α) : Nat := q.items.length

def isClosed (q : Queue α) : Bool := q.intake ≠ .listening

/-- Adds an item at the end. -/
def offer (q : Queue α) (a : α) : Except Refusal (Queue α) :=
  if q.intake ≠ .listening then .error .closed
  else if h : q.items.length < q.capacity then
    .ok { q with
      items := q.items ++ [a]
      bounded := by rw [List.length_append]; exact h }
  else .error .full

/-- Offers an item, which comes back if it is refused. -/
def put (q : Queue α) (a : α) : Option (Returned α) × Queue α :=
  match q.offer a with
  | .ok q => (none, q)
  | .error refusal => (some { refusal, item := a }, q)

/-- The oldest item and the queue without it. -/
def take? (q : Queue α) : Option (α × Queue α) :=
  match h : q.items with
  | [] => none
  | a :: rest =>
    some (a, { q with
      items := rest
      bounded := by
        have := q.bounded
        rw [h, List.length_cons] at this
        omega })

/-- What the receiver finds, and the queue after it looked. -/
def receive (q : Queue α) : Receipt α × Queue α :=
  match q.intake, q.take? with
  | .dropped, _ => (.dropped, q)
  | _, some (a, rest) => (.item a, rest)
  | .listening, none => (.empty, q)
  | .closed, none => (.disconnected, q)

/-- The receiver stops listening. -/
def close (q : Queue α) : Queue α :=
  if q.intake = .listening then { q with intake := .closed } else q

/-- The queue without its items. -/
def clear (q : Queue α) : Queue α := { q with items := [], bounded := Nat.zero_le _ }

/-- The receiver is gone. -/
def drop (q : Queue α) : Queue α := { q.clear with intake := .dropped }

/-- How a queue is shown in a log. -/
def summary (q : Queue α) (name : String) : String :=
  let quoted := Text.quote name
  s!"BoundedQueue \x7b name: {quoted}, depth: {q.depth}, capacity: {q.capacity} \x7d"

end Queue

end Switchboard
