import Colloquy.Proofs.Container.Memory
import Mathlib.Data.List.Induction

/-!
# Histories of containers

A container has a *history*: the items that it was made with, and what happened to it since.  The
history determines its contents (`History`): a queue has given back the first of all items that it
ever held and still holds the others, and a stack holds what a list does that grows and shrinks at
its head.  A copy begins a history of its own with the contents of its original (`Origin`).

* `History.acts`: a step on a container continues its history.
* `history_of_after`: after every run, each container has a history.
* `serves`: how a container answers, and that nothing else is changed.

`containers_over_runs` has all of it, together with what is known of containers in memory.
-/

namespace Colloquy

namespace Slots

variable {α : Type}

/-! ### What happened to a container -/

/-- Whether a step was refused since there was no container. -/
def Answer.isVacant : Answer α → Bool
  | .refused .vacant => true
  | _ => false

/-- Whether a step made a copy. -/
def Answer.isSlot : Answer α → Bool
  | .slot _ => true
  | _ => false

/-- What happened to the container in slot `i`, from when it was made. -/
def eventsOf (i : ℕ) (es : List (Event α)) : List (Event α) :=
  es.filter fun e => e.slot == i && !e.answer.isVacant

/-- The items that were pushed. -/
def pushed (es : List (Event α)) : List α :=
  es.filterMap fun e => match e.step with
    | .push x => some x
    | _ => none

/-- The items that were popped. -/
def popped (es : List (Event α)) : List α :=
  es.filterMap fun e => match e.step, e.answer with
    | .pop, .item x => some x
    | _, _ => none

/-- **A list as a stack**, its top at the head, under the steps that were taken. -/
def replay (l : List α) (es : List (Event α)) : List α :=
  es.foldl (fun l e => match e.step with
    | .push x => x :: l
    | .pop => l.tail
    | _ => l) l

@[simp] theorem pushed_append (es fs : List (Event α)) :
    pushed (es ++ fs) = pushed es ++ pushed fs := List.filterMap_append

@[simp] theorem popped_append (es fs : List (Event α)) :
    popped (es ++ fs) = popped es ++ popped fs := List.filterMap_append

@[simp] theorem replay_append (l : List α) (es fs : List (Event α)) :
    replay l (es ++ fs) = replay (replay l es) fs := List.foldl_append

/-- **The history of a container** that was made with the items `xs`, and to which `es` happened
since. -/
structure History (d : Discipline) (xs : List α) (es : List (Event α)) (slot : Slot α) : Prop where
  form : ∃ ys, slot = d.hold ys
  queue : d = .fifo → popped es ++ slot.elements = xs ++ pushed es
  stack : d = .lifo → slot.elements = replay xs.reverse es
  length : slot.length + (popped es).length = xs.length + (pushed es).length

theorem history_hold (d : Discipline) (xs : List α) : History d xs [] (d.hold xs) := by
  refine ⟨⟨xs, rfl⟩, ?_, ?_, ?_⟩
  · rintro rfl
    exact (List.append_nil xs).symm
  · rintro rfl
    rfl
  · rw [Discipline.length_hold]
    rfl

/-- **A step on a container continues its history.** -/
theorem History.acts {d : Discipline} {xs ys zs : List α} {es : List (Event α)} {n i : ℕ}
    {s : Step α} {a : Answer α} {copies : List (List α)} (h : History d xs es (d.hold ys))
    (ha : Acts d n ys s a zs copies) : History d xs (es ++ [⟨i, s, a⟩]) (d.hold zs) := by
  have hlen := h.length
  rw [Discipline.length_hold] at hlen
  refine ⟨⟨zs, rfl⟩, ?_, ?_, ?_⟩
  · rintro rfl
    have hq : popped es ++ ys = xs ++ pushed es := h.queue rfl
    change popped _ ++ zs = xs ++ pushed _
    rw [pushed_append, popped_append, ← List.append_assoc, ← hq]
    cases ha with
    | push x => simp [pushed, popped]
    | pop hnext => simp [pushed, popped, Discipline.next?_fifo.mp hnext]
    | popEmpty | peek | peekEmpty | clone => simp [pushed, popped]
  · rintro rfl
    have hs : ys.reverse = replay xs.reverse es := h.stack rfl
    change zs.reverse = replay _ _
    rw [replay_append, ← hs]
    cases ha with
    | push x => simp [replay]
    | pop hnext => simp [replay, Discipline.next?_lifo.mp hnext]
    | popEmpty he => simp [replay, he]
    | peek | peekEmpty | clone => rfl
  · rw [Discipline.length_hold, pushed_append, popped_append, List.length_append, List.length_append]
    cases ha with
    | push x =>
      change (ys ++ [x]).length + ((popped es).length + 0) = xs.length + ((pushed es).length + 1)
      rw [List.length_append, List.length_singleton]
      omega
    | pop hnext =>
      have := Discipline.length_of_next? hnext
      change zs.length + ((popped es).length + 1) = xs.length + ((pushed es).length + 0)
      omega
    | popEmpty | peek | peekEmpty | clone => exact hlen

/-! ### Containers in a run -/

theorem eventsOf_concat (es : List (Event α)) (i : ℕ) (s : Step α) {a : Answer α}
    (ha : a.isVacant = false) : eventsOf i (es ++ [⟨i, s, a⟩]) = eventsOf i es ++ [⟨i, s, a⟩] := by
  simp [eventsOf, ha]

theorem eventsOf_concat_of_ne (es : List (Event α)) {i j : ℕ} (hj : j ≠ i) (s : Step α)
    (a : Answer α) : eventsOf i (es ++ [⟨j, s, a⟩]) = eventsOf i es := by
  simp [eventsOf, hj]

theorem eventsOf_concat_of_vacant (es : List (Event α)) (i j : ℕ) (s : Step α) :
    eventsOf i (es ++ [⟨j, s, .refused .vacant⟩]) = eventsOf i es := by
  simp [eventsOf, Answer.isVacant]

section Acts
variable {d : Discipline} {n : ℕ} {xs ys : List α} {s : Step α} {a : Answer α}
  {copies : List (List α)} (h : Acts d n xs s a ys copies)
include h

theorem Acts.isVacant : a.isVacant = false := by
  cases h <;> rfl

theorem Acts.copies_cases :
    copies = [] ∧ a.isSlot = false ∨ s = .clone ∧ copies = [xs] ∧ a.isSlot = true := by
  cases h with
  | clone => exact .inr ⟨rfl, rfl, rfl⟩
  | push | pop | popEmpty | peek | peekEmpty => exact .inl ⟨rfl, rfl⟩

/-- Looking at a container changes nothing, and neither does what is refused. -/
theorem Acts.unchanged (hs : s = .peek ∨ ∃ r, a = .refused r) : ys = xs ∧ copies = [] := by
  cases h with
  | push | pop | clone => rcases hs with hs | ⟨r, hr⟩ <;> contradiction
  | popEmpty | peek | peekEmpty => exact ⟨rfl, rfl⟩

theorem Acts.idle (hs : s = .peek ∨ s = .clone) : ys = xs := by
  cases h with
  | push | pop | popEmpty => rcases hs with hs | hs <;> cases hs
  | peek | peekEmpty | clone => rfl

end Acts

theorem step_of_ne {slots : List (Slot α)} {i k : ℕ} (hk : k ≠ i) (hlt : k < slots.length)
    (s : Step α) : (step slots i s).2[k]? = slots[k]? := by
  cases h : slots[i]? with
  | none => rw [step_of_none h]
  | some slot =>
    rw [step_of_some h, List.getElem?_append_left (by rwa [List.length_set]),
      List.getElem?_set_ne hk.symm]

theorem length_le_step (slots : List (Slot α)) (i : ℕ) (s : Step α) :
    slots.length ≤ (step slots i s).2.length := by
  cases h : slots[i]? with
  | none => exact Nat.le_of_eq (by rw [step_of_none h])
  | some slot =>
    rw [step_of_some h, List.length_append, List.length_set]
    exact Nat.le_add_right _ _

theorem eventsOf_of_length_le (slots : List (Slot α)) (steps : List (ℕ × Step α)) {i : ℕ}
    (hi : (after slots steps).length ≤ i) : eventsOf i (events slots steps) = [] := by
  induction steps using List.reverseRecOn with
  | nil => rfl
  | append_singleton steps p ih =>
    obtain ⟨j, s⟩ := p
    rw [after_concat] at hi
    have hle := Nat.le_trans (length_le_step (after slots steps) j s) hi
    rw [events_concat]
    cases h : (after slots steps)[j]? with
    | none =>
      rw [step_of_none h, eventsOf_concat_of_vacant]
      exact ih hle
    | some slot =>
      obtain ⟨hlt, -⟩ := List.getElem?_eq_some_iff.mp h
      rw [eventsOf_concat_of_ne _ (by omega)]
      exact ih hle

/-- **Where a container comes from**: it was made at the start, or it is a copy of a container as it
was at that time. -/
inductive Origin (made : List (Discipline × List α)) (steps : List (ℕ × Step α)) (i : ℕ)
    (d : Discipline) (xs : List α) : Prop
  | made (h : made[i]? = some (d, xs))
  | copied {before : List (ℕ × Step α)} {j : ℕ} {rest : List (ℕ × Step α)}
      (hsteps : steps = before ++ (j, .clone) :: rest)
      (hi : (after (start made) before).length = i)
      (hj : (after (start made) before)[j]? = some (d.hold xs))

theorem Origin.concat {made : List (Discipline × List α)} {steps : List (ℕ × Step α)} {i : ℕ}
    {d : Discipline} {xs : List α} (h : Origin made steps i d xs) (p : ℕ × Step α) :
    Origin made (steps ++ [p]) i d xs := by
  cases h with
  | made h => exact .made h
  | copied hsteps hi hj => exact .copied (by rw [hsteps, List.append_assoc, List.cons_append]) hi hj

/-- **After every run, each container has a history.** -/
theorem history_of_after (made : List (Discipline × List α)) (steps : List (ℕ × Step α)) {i : ℕ}
    {slot : Slot α} (hslot : (after (start made) steps)[i]? = some slot) :
    ∃ d xs, Origin made steps i d xs ∧
      History d xs (eventsOf i (events (start made) steps)) slot := by
  induction steps using List.reverseRecOn generalizing i slot with
  | nil =>
    change (start made)[i]? = some slot at hslot
    rw [start, List.getElem?_map, Option.map_eq_some_iff] at hslot
    obtain ⟨⟨d, xs⟩, hmade, rfl⟩ := hslot
    exact ⟨d, xs, .made hmade, history_hold d xs⟩
  | append_singleton steps p ih =>
    obtain ⟨j, s⟩ := p
    rw [after_concat] at hslot
    rw [events_concat]
    cases hj : (after (start made) steps)[j]? with
    | none =>
      rw [step_of_none hj] at hslot ⊢
      obtain ⟨d, xs, horigin, hhistory⟩ := ih hslot
      rw [eventsOf_concat_of_vacant]
      exact ⟨d, xs, horigin.concat _, hhistory⟩
    | some slotj =>
      obtain ⟨hlt, -⟩ := List.getElem?_eq_some_iff.mp hj
      obtain ⟨d, xs, horigin, hhistory⟩ := ih hj
      obtain ⟨ys, rfl⟩ := hhistory.form
      obtain ⟨zs, copies, hacts, hafter⟩ := acts_step hj s
      by_cases hi : i < (after (start made) steps).length
      · rcases eq_or_ne i j with rfl | hne
        · -- the container that the step is addressed to
          rw [hafter, List.getElem?_append_left (by rwa [List.length_set]),
            List.getElem?_set_self hi] at hslot
          cases hslot
          rw [eventsOf_concat _ _ _ hacts.isVacant]
          exact ⟨d, xs, horigin.concat _, hhistory.acts hacts⟩
        · -- another container
          rw [step_of_ne hne hi] at hslot
          obtain ⟨d', xs', horigin', hhistory'⟩ := ih hslot
          rw [eventsOf_concat_of_ne _ hne.symm]
          exact ⟨d', xs', horigin'.concat _, hhistory'⟩
      · -- a copy, to which nothing has happened yet
        rw [hafter, List.getElem?_append_right (by rw [List.length_set]; omega), List.length_set]
          at hslot
        rw [eventsOf_concat_of_ne _ (by omega), eventsOf_of_length_le _ _ (by omega)]
        rcases hacts.copies_cases with ⟨rfl, -⟩ | ⟨rfl, rfl, -⟩
        · cases hslot
        · obtain ⟨hn, hcopy⟩ := List.getElem?_eq_some_iff.mp hslot
          obtain rfl : d.hold ys = slot := by simpa using hcopy
          refine ⟨d, ys, .copied rfl ?_ hj, history_hold d ys⟩
          simp only [List.map_cons, List.map_nil, List.length_singleton] at hn
          omega

theorem length_after (made : List (Discipline × List α)) (steps : List (ℕ × Step α)) :
    (after (start made) steps).length =
      made.length + (events (start made) steps).countP (·.answer.isSlot) := by
  induction steps using List.reverseRecOn with
  | nil => exact List.length_map _
  | append_singleton steps p ih =>
    obtain ⟨j, s⟩ := p
    rw [after_concat, events_concat, List.countP_append, List.countP_singleton, ← Nat.add_assoc, ← ih]
    cases hj : (after (start made) steps)[j]? with
    | none =>
      rw [step_of_none hj]
      rfl
    | some slot =>
      obtain ⟨d, xs, -, hhistory⟩ := history_of_after made steps hj
      obtain ⟨ys, rfl⟩ := hhistory.form
      obtain ⟨zs, copies, hacts, hafter⟩ := acts_step hj s
      rw [hafter, List.length_append, List.length_set, List.length_map]
      rcases hacts.copies_cases with ⟨rfl, ha⟩ | ⟨-, rfl, ha⟩
      · simp [ha]
      · simp [ha]

/-! ### Steps in a run -/

/-- **How the container in slot `i` serves the steps that are addressed to it.** -/
structure Serves (slots : List (Slot α)) (i : ℕ) (slot : Slot α) : Prop where
  /-- No other container is changed. -/
  others (s : Step α) {k : ℕ} (hk : k ≠ i) (hlt : k < slots.length) :
    (step slots i s).2[k]? = slots[k]?
  /-- What is refused changes nothing. -/
  refused {s : Step α} {r : Refusal} (h : (step slots i s).1 = .refused r) :
    (step slots i s).2 = slots
  push (x : α) : (step slots i (.push x)).1 = .done
  popEmpty : (step slots i .pop).1 = .refused .empty ↔ slot.length = 0
  peekEmpty : (step slots i .peek).1 = .refused .empty ↔ slot.length = 0
  /-- The item that is seen is the next one that is popped, whatever happens to other containers in
  between. -/
  peek {between : List (ℕ × Step α)} (h : ∀ s, (i, s) ∈ between → s = .peek ∨ s = .clone) :
    (step slots i .peek).2 = slots ∧
      (step (after slots between) i .pop).1 = (step slots i .peek).1
  clone : step slots i .clone = (.slot slots.length, slots ++ [slot])

section Serves
variable {slots : List (Slot α)} {i : ℕ} {d : Discipline} {xs : List α}

theorem answer_next (h : slots[i]? = some (d.hold xs)) {s : Step α} (hs : s = .pop ∨ s = .peek) :
    (step slots i s).1 = ((d.next? xs).map fun p => Answer.item p.1).getD (.refused .empty) := by
  obtain ⟨ys, copies, hacts, -⟩ := acts_step h s
  generalize (step slots i s).1 = a at hacts ⊢
  cases hacts with
  | push | clone => rcases hs with hs | hs <;> cases hs
  | pop hnext | peek hnext => rw [hnext]; rfl
  | popEmpty he | peekEmpty he => rw [Discipline.next?_eq_none.mpr he]; rfl

theorem answer_next_empty (h : slots[i]? = some (d.hold xs)) {s : Step α}
    (hs : s = .pop ∨ s = .peek) :
    (step slots i s).1 = .refused .empty ↔ (d.hold xs).length = 0 := by
  rw [answer_next h hs, Discipline.length_hold, List.length_eq_zero_iff, ← Discipline.next?_eq_none]
  cases d.next? xs <;> simp

/-- Steps on other containers, and looking at a container or copying it, leave it as it is. -/
theorem after_of_idle (h : slots[i]? = some (d.hold xs)) {steps : List (ℕ × Step α)}
    (hsteps : ∀ s, (i, s) ∈ steps → s = .peek ∨ s = .clone) :
    (after slots steps)[i]? = some (d.hold xs) := by
  induction steps using List.reverseRecOn with
  | nil => exact h
  | append_singleton steps p ih =>
    obtain ⟨j, s⟩ := p
    have hi := ih fun s hs => hsteps s (List.mem_append_left _ hs)
    obtain ⟨hlt, -⟩ := List.getElem?_eq_some_iff.mp hi
    rw [after_concat]
    rcases eq_or_ne i j with rfl | hne
    · have hs := hsteps s (List.mem_append_right _ (List.mem_singleton_self _))
      obtain ⟨ys, copies, hacts, hafter⟩ := acts_step hi s
      rw [hafter, hacts.idle hs, set_of_getElem? hi, List.getElem?_append_left hlt, hi]
    · rw [step_of_ne hne hlt, hi]

theorem serves (h : slots[i]? = some (d.hold xs)) : Serves slots i (d.hold xs) := by
  have hunchanged {s : Step α} (hs : s = .peek ∨ ∃ r, (step slots i s).1 = .refused r) :
      (step slots i s).2 = slots := by
    obtain ⟨ys, copies, hacts, hafter⟩ := acts_step h s
    obtain ⟨rfl, rfl⟩ := hacts.unchanged hs
    rw [hafter, set_of_getElem? h, List.map_nil, List.append_nil]
  refine ⟨fun s k hk hlt => step_of_ne hk hlt s, fun hr => hunchanged (.inr ⟨_, hr⟩), ?_,
    answer_next_empty h (.inl rfl), answer_next_empty h (.inr rfl), ?_, ?_⟩
  · intro x
    obtain ⟨ys, copies, hacts, -⟩ := acts_step h (.push x)
    generalize (step slots i (.push x)).1 = a at hacts ⊢
    cases hacts
    rfl
  · intro between hbetween
    refine ⟨hunchanged (.inl rfl), ?_⟩
    rw [answer_next (after_of_idle h hbetween) (.inl rfl), answer_next h (.inr rfl)]
  · obtain ⟨ys, copies, hacts, hafter⟩ := acts_step h .clone
    generalize step slots i .clone = r at hacts hafter ⊢
    obtain ⟨a, slots'⟩ := r
    cases hacts
    rw [set_of_getElem? h] at hafter
    exact congrArg (Prod.mk _) hafter

end Serves

/-- **Containers over whole runs.**  After every run each container has its history, beginning with
the items that it was made with or with those of its original, and serves steps without a trace in
the others.  No container is lost.  All this is so also if the containers are stretches of arrays
that are written in place. -/
theorem containers_over_runs (made : List (Discipline × List α)) (steps : List (ℕ × Step α)) :
    (∀ i slot, (after (start made) steps)[i]? = some slot →
      Serves (after (start made) steps) i slot ∧
      ∃ d xs, Origin made steps i d xs ∧
        History d xs (eventsOf i (events (start made) steps)) slot) ∧
    (after (start made) steps).length =
      made.length + (events (start made) steps).countP (·.answer.isSlot) ∧
    ∀ (blank : α) (spare : ℕ → ℕ),
      ((Memory.load made).after blank spare steps).slots = after (start made) steps ∧
      (Memory.load made).events blank spare steps = events (start made) steps := by
  refine ⟨?_, length_after made steps, ?_⟩
  · intro i slot hslot
    obtain ⟨d, xs, horigin, hhistory⟩ := history_of_after made steps hslot
    obtain ⟨ys, rfl⟩ := hhistory.form
    exact ⟨serves hslot, d, xs, horigin, hhistory⟩
  · intro blank spare
    obtain ⟨hsound, hslots⟩ := Memory.load_sound made
    rw [← hslots]
    exact hsound.run blank spare steps

end Slots

end Colloquy
