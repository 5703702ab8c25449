import Colloquy.Container.Queue
import Colloquy.Container.Stack

/-!
# Slots

A family of queues and stacks, each in a numbered slot.  A step pushes on, pops from or looks at the
container of one slot, or copies it into a new slot at the end.  The place of a container may be
vacant: then its length is zero, and no step on it is possible.
-/

namespace Colloquy

/-- **A slot**: a queue or a stack, or the place of one. -/
inductive Slot (α : Type) where
  | queue (q : Option (Queue α))
  | stack (s : Option (Stack α))
deriving DecidableEq, Repr

/-- Why a step on a slot is not possible. -/
inductive Refusal where
  /-- There is no item in the container. -/
  | empty
  /-- There is no container in the slot. -/
  | vacant
deriving DecidableEq, Repr

namespace Slot

variable {α : Type}

/-- The items in the order in which the container is shown. -/
def elements : Slot α → List α
  | queue q => (q.map Queue.elements).getD []
  | stack s => (s.map Stack.elements).getD []

/-- The number of items. -/
def length : Slot α → Nat
  | queue q => (q.map Queue.length).getD 0
  | stack s => (s.map Stack.length).getD 0

/-- Pushes an item. -/
def push (x : α) : Slot α → Except Refusal (Slot α)
  | queue (some q) => .ok (queue (some (q.push x)))
  | stack (some s) => .ok (stack (some (s.push x)))
  | _ => .error .vacant

/-- Pops an item. -/
def pop : Slot α → Except Refusal (α × Slot α)
  | queue (some q) =>
    match q.pop? with
    | some (x, r) => .ok (x, queue (some r))
    | none => .error .empty
  | stack (some s) =>
    match s.pop? with
    | some (x, r) => .ok (x, stack (some r))
    | none => .error .empty
  | _ => .error .vacant

/-- The item that would be popped. -/
def peek : Slot α → Except Refusal α
  | queue (some q) =>
    match q.front? with
    | some x => .ok x
    | none => .error .empty
  | stack (some s) =>
    match s.top? with
    | some x => .ok x
    | none => .error .empty
  | _ => .error .vacant

/-- A copy of the container. -/
def clone : Slot α → Except Refusal (Slot α)
  | queue (some q) => .ok (queue (some (.ofList q.items)))
  | stack (some s) => .ok (stack (some (.ofList s.items)))
  | _ => .error .vacant

end Slot

namespace Slots

variable {α : Type}

/-- **A step** on one slot. -/
inductive Step (α : Type) where
  | push (x : α)
  | pop
  | peek
  | clone
deriving DecidableEq, Repr

/-- The answer to a step: nothing, an item, the number of a new slot, or a refusal. -/
inductive Answer (α : Type) where
  | done
  | item (x : α)
  | slot (n : Nat)
  | refused (r : Refusal)
deriving DecidableEq, Repr

/-- Does a step on a slot.  Gives the answer, the slot afterwards, and the copy that was made. -/
def act (n : Nat) (slot : Slot α) : Step α → Answer α × Slot α × List (Slot α)
  | .push x =>
    match slot.push x with
    | .ok s => (.done, s, [])
    | .error r => (.refused r, slot, [])
  | .pop =>
    match slot.pop with
    | .ok (x, s) => (.item x, s, [])
    | .error r => (.refused r, slot, [])
  | .peek =>
    match slot.peek with
    | .ok x => (.item x, slot, [])
    | .error r => (.refused r, slot, [])
  | .clone =>
    match slot.clone with
    | .ok s => (.slot n, slot, [s])
    | .error r => (.refused r, slot, [])

/-- **Does a step** on the slot with number `i`. -/
def step (slots : List (Slot α)) (i : Nat) (s : Step α) : Answer α × List (Slot α) :=
  match slots[i]? with
  | none => (.refused .vacant, slots)
  | some slot =>
    let (answer, after, new) := act slots.length slot s
    (answer, slots.set i after ++ new)

end Slots

end Colloquy
