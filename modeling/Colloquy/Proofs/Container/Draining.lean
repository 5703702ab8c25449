import Colloquy.Proofs.Container.Histories
import Colloquy.Proofs.Rendering

/-!
# Draining containers

A container that is popped until it is empty gives its items in the order in which it is shown.  So
the rendering of a container can be read off from what a copy of it gives when it is drained; the
container itself stays as it is.

* `elements_of_next?`: the next item is the first that is shown, and the others follow.
* `pops_until_empty`: popping gives the items as they are shown, and then refuses.
* `drains_copy`: the same of a copy, at the end of any run.
* `Slot.format_eq_ok`, `format_stack`: how containers are rendered.
-/

namespace Colloquy

namespace Slots

variable {α : Type}

/-! ### Popping -/

theorem elements_of_next? {d : Discipline} {xs ys : List α} {x : α}
    (h : d.next? xs = some (x, ys)) : (d.hold xs).elements = x :: (d.hold ys).elements := by
  cases d with
  | fifo =>
    obtain rfl := Discipline.next?_fifo.mp h
    rfl
  | lifo =>
    obtain rfl := Discipline.next?_lifo.mp h
    simp [Discipline.hold, Slot.elements, Stack.elements, Stack.ofList]

theorem step_pop {d : Discipline} {i : ℕ} {xs ys : List α} {x : α} {slots : List (Slot α)}
    (h : slots[i]? = some (d.hold xs)) (hx : d.next? xs = some (x, ys)) :
    step slots i .pop = (.item x, slots.set i (d.hold ys)) := by
  rw [step_of_some h, act, pop_hold, hx, List.append_nil]

theorem step_pop_empty {d : Discipline} {i : ℕ} {slots : List (Slot α)}
    (h : slots[i]? = some (d.hold [])) : step slots i .pop = (.refused .empty, slots) := by
  rw [step_of_some h, act, pop_hold, Discipline.next?_eq_none.mpr rfl, List.append_nil,
    set_of_getElem? h]

/-- **Popping until nothing is left** gives the items as they are shown, and then refuses. -/
theorem pops_until_empty {d : Discipline} {i : ℕ} {n : ℕ} {xs : List α} (hn : xs.length = n)
    {slots : List (Slot α)} (h : slots[i]? = some (d.hold xs)) :
    events slots (List.replicate (n + 1) (i, .pop)) =
        (d.hold xs).elements.map (⟨i, .pop, .item ·⟩) ++ [⟨i, .pop, .refused .empty⟩] ∧
      after slots (List.replicate (n + 1) (i, .pop)) = slots.set i (d.hold []) := by
  induction n generalizing xs slots with
  | zero =>
    obtain rfl := List.length_eq_zero_iff.mp hn
    have hnone : (d.hold ([] : List α)).elements = [] := by cases d <;> rfl
    have hsame := set_of_getElem? h
    simp [events, after, step_pop_empty h, hnone, hsame]
  | succ n ih =>
    cases hx : d.next? xs with
    | none => simp [Discipline.next?_eq_none.mp hx] at hn
    | some p =>
      obtain ⟨x, ys⟩ := p
      have hlt : i < slots.length := (List.getElem?_eq_some_iff.mp h).1
      have hlen : ys.length = n := by
        have := Discipline.length_of_next? hx
        omega
      have hset : (slots.set i (d.hold ys))[i]? = some (d.hold ys) := List.getElem?_set_self hlt
      obtain ⟨hevents, hafter⟩ := ih hlen hset
      have hstep := step_pop h hx
      refine ⟨?_, ?_⟩
      · rw [List.replicate_succ, events, hstep, hevents, elements_of_next? hx]
        rfl
      · rw [List.set_set] at hafter
        rw [List.replicate_succ, after, List.foldl_cons, hstep]
        exact hafter

/-! ### Draining a copy -/

theorem events_append (slots : List (Slot α)) (steps rest : List (ℕ × Step α)) :
    events slots (steps ++ rest) = events slots steps ++ events (after slots steps) rest := by
  induction steps generalizing slots with
  | nil => rfl
  | cons p steps ih => exact congrArg (List.cons _) (ih _)

theorem after_append (slots : List (Slot α)) (steps rest : List (ℕ × Step α)) :
    after slots (steps ++ rest) = after (after slots steps) rest := List.foldl_append

/-- The steps that copy container `i` of `n` containers, and pop the copy `m` times. -/
def drain (i n m : ℕ) : List (ℕ × Step α) := (i, .clone) :: List.replicate m (n, .pop)

/-- **A copy is drained.**  It gives the items of its original as they are shown, and then refuses;
all else stays as it is. -/
theorem drains_copy {slots : List (Slot α)} {i : ℕ} {d : Discipline} {xs : List α}
    (h : slots[i]? = some (d.hold xs)) :
    events slots (drain i slots.length (xs.length + 1)) =
        ⟨i, .clone, .slot slots.length⟩ ::
          (d.hold xs).elements.map (⟨slots.length, .pop, .item ·⟩) ++
          [⟨slots.length, .pop, .refused .empty⟩] ∧
      after slots (drain i slots.length (xs.length + 1)) = slots ++ [d.hold []] := by
  have hclone := (serves h).clone
  have hcopy : (slots ++ [d.hold xs])[slots.length]? = some (d.hold xs) := by simp
  obtain ⟨hevents, hafter⟩ := pops_until_empty rfl hcopy
  refine ⟨?_, ?_⟩
  · rw [drain, events, hclone, hevents]
    rfl
  · rw [drain, after, List.foldl_cons, hclone]
    refine hafter.trans ?_
    simp

/-- **What draining shows** of the container in slot `i` after a run: a copy of it that is popped
until it refuses gives `popped`.  The containers are left as they were, with the copy behind them,
which is empty then; this is so in memory too. -/
structure Drained (made : List (Discipline × List α)) (steps : List (ℕ × Step α)) (i : ℕ)
    (popped : List α) : Prop where
  events : events (start made)
      (steps ++ drain i (after (start made) steps).length (popped.length + 1)) =
    events (start made) steps ++ ⟨i, .clone, .slot (after (start made) steps).length⟩ ::
      popped.map (⟨(after (start made) steps).length, .pop, .item ·⟩) ++
      [⟨(after (start made) steps).length, .pop, .refused .empty⟩]
  after : ∃ d : Discipline, after (start made)
      (steps ++ drain i (after (start made) steps).length (popped.length + 1)) =
    after (start made) steps ++ [d.hold []]
  memory (blank : α) (spare : ℕ → ℕ) (m : ℕ) :
    ((Memory.load made).after blank spare
      (steps ++ drain i (Slots.after (start made) steps).length m)).slots =
        Slots.after (start made) (steps ++ drain i (Slots.after (start made) steps).length m) ∧
    (Memory.load made).events blank spare
      (steps ++ drain i (Slots.after (start made) steps).length m) =
        Slots.events (start made) (steps ++ drain i (Slots.after (start made) steps).length m)

theorem length_elements_hold (d : Discipline) (xs : List α) :
    (d.hold xs).elements.length = xs.length := by
  cases d with
  | fifo => rfl
  | lifo => exact List.length_reverse

theorem drained_elements {made : List (Discipline × List α)} {steps : List (ℕ × Step α)} {i : ℕ}
    {slot : Slot α} (h : (after (start made) steps)[i]? = some slot) :
    Drained made steps i slot.elements ∧ slot.elements.length = slot.length := by
  obtain ⟨d, _, -, hhistory⟩ := history_of_after made steps h
  obtain ⟨xs, rfl⟩ := hhistory.form
  have hlen := length_elements_hold d xs
  obtain ⟨hevents, hafter⟩ := drains_copy h
  refine ⟨⟨?_, ⟨d, ?_⟩, ?_⟩, by rw [hlen, Discipline.length_hold]⟩
  · rw [events_append, hlen, hevents, List.append_assoc]
  · rw [after_append, hlen, hafter]
  · intro blank spare m
    obtain ⟨hsound, hslots⟩ := Memory.load_sound made
    rw [← hslots]
    exact hsound.run blank spare _

end Slots

/-! ### Renderings -/

theorem Value.render_of_elements (style : Style) {v w : Value} {k k' : Container}
    (hv : v.container? = some k) (hw : w.container? = some k') (h : k.elements = k'.elements) :
    v.render style = w.render style := by
  have hscalar {u : Value} {k : Container} (hu : u.container? = some k) :
      u.renderScalar? = none := by
    rw [Value.renderScalar?_eq_none]
    intro hbase
    simp [Value.container?_eq_none_of_isBase hbase] at hu
  simp only [Value.render, hscalar hv, hscalar hw, hv, hw, h]

namespace Slot

/-- A container of scalars of type `t` as a value. -/
def value (t : ScalarType) : Slot t.Carrier → Value
  | queue q => .queue t q
  | stack s => .stack t s

variable {t : ScalarType}

theorem container?_value (slot : Slot t.Carrier) :
    ∃ k, (slot.value t).container? = some k ∧ k.elements = slot.elements.map (.scalar t) := by
  cases slot <;> exact ⟨_, rfl, rfl⟩

theorem format_eq_ok {slot : Slot t.Carrier} {u : Text} : (slot.value t).format = .ok u ↔
    ∃ ts, List.Forall₂ Value.Shows (slot.elements.map (.scalar t)) ts ∧
      u = "[" ++ Text.join ", " ts ++ "]" := by
  obtain ⟨k, hk, helements⟩ := slot.container?_value
  rw [Value.format, Value.render_eq_ok, ← helements]
  constructor
  · intro h
    cases h with
    | scalar h =>
      have := Value.container?_eq_none_of_isBase (Value.isBase_iff.mpr ⟨u, h⟩)
      simp [hk] at this
    | container hk' h =>
      obtain rfl := Option.some.inj (hk.symm.trans hk')
      exact ⟨_, h, rfl⟩
  · rintro ⟨ts, hts, rfl⟩
    exact .container hk hts

end Slot

open Slots in
/-- **A rendering shows what draining would give.**  After every run, draining a copy of a container
gives as many items as it holds, which are its elements in the order in which it is shown, and its
rendering encloses the renderings of the items that were given.  So a stack is rendered as the queue,
the array and the slice of its items in reverse. -/
theorem format_shows_draining (t : ScalarType) (made : List (Discipline × List t.Carrier))
    (steps : List (ℕ × Step t.Carrier)) :
    (∀ i slot, (after (start made) steps)[i]? = some slot → ∃ popped : List t.Carrier,
      Drained made steps i popped ∧ popped.length = slot.length ∧ popped = slot.elements ∧
      ∀ u, (slot.value t).format = .ok u ↔
        ∃ ts, List.Forall₂ Value.Shows (popped.map (.scalar t)) ts ∧
          u = "[" ++ Text.join ", " ts ++ "]") ∧
    (∀ xs : List t.Carrier,
      (Value.stack t (some (.ofList xs))).format =
        (Value.queue t (some (.ofList xs.reverse))).format ∧
      ∀ owner, (Value.stack t (some (.ofList xs))).format =
        (Value.array owner t (some xs.reverse)).format) ∧
    ∀ (b : Base) (xs : List b.Carrier) (owner : Option Text),
      (Value.stack ⟨none, b⟩ (some (.ofList xs))).format =
        (Value.slice owner (.scalar ⟨none, b⟩) (some xs.reverse)).format := by
  refine ⟨?_, fun xs => ⟨?_, fun owner => ?_⟩, fun b xs owner => ?_⟩
  · intro i slot hslot
    obtain ⟨hdrained, hlen⟩ := drained_elements hslot
    exact ⟨slot.elements, hdrained, hlen, rfl, fun u => Slot.format_eq_ok⟩
  -- all of them have the items of the stack from the top down
  · exact Value.render_of_elements .plain rfl rfl rfl
  · exact Value.render_of_elements .plain rfl rfl rfl
  · exact Value.render_of_elements .plain rfl rfl rfl

end Colloquy
