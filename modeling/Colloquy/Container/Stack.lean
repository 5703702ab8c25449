/-!
# Stacks

A stack gives back first what was pushed last.
-/

namespace Colloquy

/-- **A stack**, its items from bottom to top. -/
structure Stack (α : Type) where
  items : List α
deriving DecidableEq, Repr

namespace Stack

variable {α : Type}

/-- The stack on which the items of a list were pushed in order. -/
def ofList (xs : List α) : Stack α := ⟨xs⟩

def length (s : Stack α) : Nat := s.items.length

/-- Puts an item on top. -/
def push (s : Stack α) (x : α) : Stack α := ⟨s.items ++ [x]⟩

/-- The item on top, and the stack without it. -/
def pop? (s : Stack α) : Option (α × Stack α) :=
  s.items.getLast?.map (·, ⟨s.items.dropLast⟩)

/-- The item on top. -/
def top? (s : Stack α) : Option α := s.items.getLast?

/-- The items in the order in which the stack is shown: from the top down. -/
def elements (s : Stack α) : List α := s.items.reverse

end Stack

end Colloquy
