/-!
# Queues

A queue gives its items back in the order in which they were pushed.
-/

namespace Colloquy

/-- **A queue**, its items from front to back. -/
structure Queue (α : Type) where
  items : List α
deriving DecidableEq, Repr

namespace Queue

variable {α : Type}

/-- The queue on which the items of a list were pushed in order. -/
def ofList (xs : List α) : Queue α := ⟨xs⟩

def length (q : Queue α) : Nat := q.items.length

/-- Puts an item behind all others. -/
def push (q : Queue α) (x : α) : Queue α := ⟨q.items ++ [x]⟩

/-- The item at the front, and the queue without it. -/
def pop? (q : Queue α) : Option (α × Queue α) :=
  match q.items with
  | [] => none
  | x :: xs => some (x, ⟨xs⟩)

/-- The item at the front. -/
def front? (q : Queue α) : Option α := q.items.head?

/-- The items in the order in which the queue is shown. -/
def elements (q : Queue α) : List α := q.items

end Queue

end Colloquy
