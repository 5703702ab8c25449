import Colloquy.Container.Slots
import Mathlib.Data.List.Basic

/-!
# The disciplines of containers

A queue and a stack differ in one thing: which of their items is given back next.  This is their
*discipline*, and everything else is said once for both.  `Acts` lists what a step on a container can
do, and `acts_step` says that every step on a family of containers is one of these cases; all other
facts about steps follow from this.

A run is a list of steps, each with the number of the slot that it is addressed to.  `after` gives
the family after a run, and `events` what was answered.
-/

namespace Colloquy

namespace Slots

variable {α : Type}

/-- **Which item is given back next**: the one that was pushed first or last. -/
inductive Discipline where
  | fifo
  | lifo
deriving DecidableEq, Repr

namespace Discipline

/-- The container with the given items, in the order in which they were pushed. -/
def hold : Discipline → List α → Slot α
  | fifo, items => .queue (some (.ofList items))
  | lifo, items => .stack (some (.ofList items))

/-- The next item, and the items that remain. -/
def next? : Discipline → List α → Option (α × List α)
  | fifo, [] => none
  | fifo, x :: xs => some (x, xs)
  | lifo, xs => xs.getLast?.map (·, xs.dropLast)

theorem next?_eq_none {d : Discipline} {xs : List α} : d.next? xs = none ↔ xs = [] := by
  cases d with
  | fifo => cases xs <;> simp [next?]
  | lifo => simp [next?]

theorem next?_fifo {xs ys : List α} {x : α} :
    fifo.next? xs = some (x, ys) ↔ xs = x :: ys := by
  cases xs <;> simp [next?]

theorem next?_lifo {xs ys : List α} {x : α} :
    lifo.next? xs = some (x, ys) ↔ xs = ys ++ [x] := by
  rw [next?, Option.map_eq_some_iff]
  constructor
  · rintro ⟨y, hy, h⟩
    obtain ⟨rfl, rfl⟩ := Prod.mk.inj h
    exact (List.dropLast_append_getLast? y hy).symm
  · rintro rfl
    exact ⟨x, by simp, by simp⟩

theorem length_of_next? {d : Discipline} {xs ys : List α} {x : α}
    (h : d.next? xs = some (x, ys)) : xs.length = ys.length + 1 := by
  cases d with
  | fifo => rw [next?_fifo.mp h, List.length_cons]
  | lifo => rw [next?_lifo.mp h, List.length_append, List.length_singleton]

@[simp] theorem length_hold (d : Discipline) (xs : List α) : (d.hold xs).length = xs.length := by
  cases d <;> rfl

end Discipline

/-! ### Steps -/

/-- **What a step on a container of discipline `d` with the items `xs` can do**: what is answered,
where `n` is the number of a new slot, which items are left, and which items a copy has. -/
inductive Acts (d : Discipline) (n : ℕ) (xs : List α) :
    Step α → Answer α → List α → List (List α) → Prop
  | push (x : α) : Acts d n xs (.push x) .done (xs ++ [x]) []
  | pop {x : α} {ys : List α} (h : d.next? xs = some (x, ys)) : Acts d n xs .pop (.item x) ys []
  | popEmpty (h : xs = []) : Acts d n xs .pop (.refused .empty) xs []
  | peek {x : α} {ys : List α} (h : d.next? xs = some (x, ys)) : Acts d n xs .peek (.item x) xs []
  | peekEmpty (h : xs = []) : Acts d n xs .peek (.refused .empty) xs []
  | clone : Acts d n xs .clone (.slot n) xs [xs]

theorem pop_hold (d : Discipline) (xs : List α) : (d.hold xs).pop =
    match d.next? xs with
    | some (x, ys) => .ok (x, d.hold ys)
    | none => .error .empty := by
  cases d with
  | fifo => cases xs <;> rfl
  | lifo =>
    cases h : xs.getLast? <;>
      simp [Discipline.hold, Discipline.next?, Slot.pop, Stack.pop?, Stack.ofList, h]

theorem peek_hold (d : Discipline) (xs : List α) : (d.hold xs).peek =
    match d.next? xs with
    | some (x, _) => .ok x
    | none => .error .empty := by
  cases d with
  | fifo => cases xs <;> rfl
  | lifo =>
    cases h : xs.getLast? <;>
      simp [Discipline.hold, Discipline.next?, Slot.peek, Stack.top?, Stack.ofList, h]

theorem acts_act (d : Discipline) (n : ℕ) (xs : List α) (s : Step α) :
    ∃ ys copies, Acts d n xs s (act n (d.hold xs) s).1 ys copies ∧
      (act n (d.hold xs) s).2 = (d.hold ys, copies.map d.hold) := by
  cases s with
  | push x =>
    have hact : act n (d.hold xs) (.push x) = (.done, d.hold (xs ++ [x]), []) := by cases d <;> rfl
    rw [hact]
    exact ⟨_, _, .push x, rfl⟩
  | pop =>
    rw [act, pop_hold]
    cases h : d.next? xs with
    | none => exact ⟨_, _, .popEmpty (Discipline.next?_eq_none.mp h), rfl⟩
    | some p => exact ⟨_, _, .pop h, rfl⟩
  | peek =>
    rw [act, peek_hold]
    cases h : d.next? xs with
    | none => exact ⟨_, _, .peekEmpty (Discipline.next?_eq_none.mp h), rfl⟩
    | some p => exact ⟨_, _, .peek h, rfl⟩
  | clone =>
    have hact : act n (d.hold xs) .clone = (.slot n, d.hold xs, [d.hold xs]) := by cases d <;> rfl
    rw [hact]
    exact ⟨_, _, .clone, rfl⟩

theorem step_of_none {slots : List (Slot α)} {i : ℕ} (h : slots[i]? = none) (s : Step α) :
    step slots i s = (.refused .vacant, slots) := by
  rw [step, h]

theorem step_of_some {slots : List (Slot α)} {i : ℕ} {slot : Slot α} (h : slots[i]? = some slot)
    (s : Step α) : step slots i s = ((act slots.length slot s).1,
      slots.set i (act slots.length slot s).2.1 ++ (act slots.length slot s).2.2) := by
  rw [step, h]

theorem set_of_getElem? {slots : List (Slot α)} {i : ℕ} {slot : Slot α}
    (h : slots[i]? = some slot) : slots.set i slot = slots := by
  obtain ⟨hlt, hget⟩ := List.getElem?_eq_some_iff.mp h
  rw [← hget, List.set_getElem_self]

/-- **Every step on a container is one of these cases**, and touches no other container. -/
theorem acts_step {slots : List (Slot α)} {i : ℕ} {d : Discipline} {xs : List α}
    (h : slots[i]? = some (d.hold xs)) (s : Step α) :
    ∃ ys copies, Acts d slots.length xs s (step slots i s).1 ys copies ∧
      (step slots i s).2 = slots.set i (d.hold ys) ++ copies.map d.hold := by
  obtain ⟨ys, copies, hacts, hact⟩ := acts_act d slots.length xs s
  rw [step_of_some h]
  exact ⟨ys, copies, hacts, by rw [hact]⟩

/-! ### Runs -/

/-- What happened at a step of a run. -/
structure Event (α : Type) where
  slot : ℕ
  step : Step α
  answer : Answer α

/-- The family after a run. -/
def after (slots : List (Slot α)) (steps : List (ℕ × Step α)) : List (Slot α) :=
  steps.foldl (fun slots p => (step slots p.1 p.2).2) slots

/-- **What happened in a run**, step by step. -/
def events : List (Slot α) → List (ℕ × Step α) → List (Event α)
  | _, [] => []
  | slots, (i, s) :: steps => ⟨i, s, (step slots i s).1⟩ :: events (step slots i s).2 steps

@[simp] theorem after_concat (slots : List (Slot α)) (steps : List (ℕ × Step α)) (i : ℕ)
    (s : Step α) : after slots (steps ++ [(i, s)]) = (step (after slots steps) i s).2 := by
  simp [after]

@[simp] theorem events_concat (slots : List (Slot α)) (steps : List (ℕ × Step α)) (i : ℕ)
    (s : Step α) : events slots (steps ++ [(i, s)]) =
      events slots steps ++ [⟨i, s, (step (after slots steps) i s).1⟩] := by
  induction steps generalizing slots with
  | nil => rfl
  | cons p steps ih => exact congrArg (List.cons _) (ih _)

/-- The family of the containers that are made from lists of items. -/
def start (made : List (Discipline × List α)) : List (Slot α) := made.map fun m => m.1.hold m.2

end Slots

end Colloquy
