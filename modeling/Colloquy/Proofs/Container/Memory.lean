import Colloquy.Proofs.Container.Disciplines
import Mathlib.Data.List.Induction

/-!
# Containers in memory

A container keeps its items in a stretch of an array of cells.  An item is pushed into the cell
behind the stretch, if the array has one; otherwise the items move to a new array, with as many cells
to spare as one likes.  The cell of a popped item is blanked, and the stretch shrinks by it: a queue
moves up in its array.  A copy gets an array of its own.

Arrays are written in place, so a write shows in every container whose stretch it meets.  But no two
containers ever use the same array (`Sound.apart`); hence the memory behaves like a family of
containers each of which is a value of its own (`Sound.run`).
-/

namespace Colloquy

namespace Slots

variable {α : Type}

/-! ### Stretches of cells -/

/-- A stretch of the cells of an array. -/
structure Span where
  array : ℕ
  start : ℕ
  length : ℕ

namespace Span

/-- The items in a stretch of the given cells. -/
def items (s : Span) (cells : List α) : List α := (cells.drop s.start).take s.length

/-- The cell of the next item, and the stretch without it. -/
def next? (s : Span) (d : Discipline) : Option (ℕ × Span) :=
  if s.length = 0 then none
  else
    match d with
    | .fifo => some (s.start, ⟨s.array, s.start + 1, s.length - 1⟩)
    | .lifo => some (s.start + (s.length - 1), ⟨s.array, s.start, s.length - 1⟩)

variable {s : Span} {cells : List α}

theorem length_items (h : s.start + s.length ≤ cells.length) : (s.items cells).length = s.length := by
  rw [items, List.length_take, List.length_drop]
  omega

theorem next?_bounds {d : Discipline} {k : ℕ} {rest : Span} (h : s.next? d = some (k, rest)) :
    rest.array = s.array ∧ rest.start + rest.length ≤ s.start + s.length := by
  unfold next? at h
  split_ifs at h with h0
  cases d with
  | fifo =>
    obtain ⟨-, rfl⟩ := Prod.mk.inj (Option.some.inj h)
    exact ⟨rfl, by dsimp only; omega⟩
  | lifo =>
    obtain ⟨-, rfl⟩ := Prod.mk.inj (Option.some.inj h)
    exact ⟨rfl, by dsimp only; omega⟩

theorem items_push (h : s.start + s.length < cells.length) (x : α) :
    items ⟨s.array, s.start, s.length + 1⟩ (cells.set (s.start + s.length) x) =
      s.items cells ++ [x] := by
  obtain ⟨a, k, n⟩ := s
  dsimp only [items] at h ⊢
  rw [List.drop_set, if_neg (by omega), Nat.add_sub_cancel_left, List.take_add_one,
    List.take_set_of_le (Nat.le_refl _), List.getElem?_set_self (by rw [List.length_drop]; omega)]
  rfl

/-- **The next item of a stretch** is the next of its items; blanking its cell does not change the
others. -/
theorem next?_items (h : s.start + s.length ≤ cells.length) (blank : α) (d : Discipline) :
    d.next? (s.items cells) =
      (s.next? d).map fun p => (cells.getD p.1 blank, p.2.items (cells.set p.1 blank)) := by
  obtain ⟨a, k, n⟩ := s
  dsimp only [items, next?] at h ⊢
  cases n with
  | zero => rw [if_pos rfl, Option.map_none, Discipline.next?_eq_none, List.take_zero]
  | succ n =>
    have hget {j : ℕ} (hj : j < cells.length) : cells.getD j blank = cells[j] := by
      rw [List.getD_eq_getElem?_getD, List.getElem?_eq_getElem hj, Option.getD_some]
    rw [if_neg n.succ_ne_zero, Nat.add_sub_cancel]
    cases d with
    | fifo =>
      rw [Option.map_some, Discipline.next?_fifo, hget (by omega),
        List.drop_eq_getElem_cons (by omega), List.take_succ_cons,
        List.drop_set_of_lt (Nat.lt_succ_self _)]
    | lifo =>
      have hlast : (cells.drop k)[n]? = some (cells[k + n]) := by
        rw [List.getElem?_drop, List.getElem?_eq_getElem (by omega)]
      simp only [Option.map_some]
      rw [Discipline.next?_lifo, hget (by omega), List.take_add_one, hlast, List.drop_set,
        if_neg (by omega), Nat.add_sub_cancel_left, List.take_set_of_le (Nat.le_refl _)]
      rfl

end Span

/-! ### Memory -/

/-- **A memory**: arrays of cells, and the containers with their stretches. -/
structure Memory (α : Type) where
  arrays : List (List α)
  spans : List (Discipline × Span)

namespace Memory

/-- The cells of an array. -/
def cells (m : Memory α) (a : ℕ) : List α := m.arrays[a]?.getD []

/-- The items in a stretch. -/
def items (m : Memory α) (s : Span) : List α := s.items (m.cells s.array)

/-- **What the containers hold.** -/
def slots (m : Memory α) : List (Slot α) := m.spans.map fun p => p.1.hold (m.items p.2)

/-- Writes an item into cell `k` of the array of container `i`, which then has the stretch `s`. -/
def write (m : Memory α) (i : ℕ) (d : Discipline) (s : Span) (k : ℕ) (x : α) : Memory α :=
  ⟨m.arrays.set s.array ((m.cells s.array).set k x), m.spans.set i (d, s)⟩

/-- Moves container `i` to a new array, of which it takes the first `n` cells. -/
def move (m : Memory α) (i : ℕ) (d : Discipline) (n : ℕ) (cells : List α) : Memory α :=
  ⟨m.arrays ++ [cells], m.spans.set i (d, ⟨m.arrays.length, 0, n⟩)⟩

/-- Makes a container with the given items. -/
def make (m : Memory α) (d : Discipline) (items : List α) : Memory α :=
  ⟨m.arrays ++ [items], m.spans ++ [(d, ⟨m.arrays.length, 0, items.length⟩)]⟩

/-- **A step in memory.**  Popped cells are filled with `blank`, and a container that moves takes
`spare n` cells more than its `n + 1` items need. -/
def step (blank : α) (spare : ℕ → ℕ) (m : Memory α) (i : ℕ) (s : Step α) : Answer α × Memory α :=
  match m.spans[i]? with
  | none => (.refused .vacant, m)
  | some (d, span) =>
    let cells := m.cells span.array
    match s with
    | .push x =>
      if span.start + span.length < cells.length then
        (.done, m.write i d ⟨span.array, span.start, span.length + 1⟩ (span.start + span.length) x)
      else
        (.done, m.move i d (span.length + 1)
          (m.items span ++ x :: List.replicate (spare span.length) blank))
    | .pop =>
      match span.next? d with
      | some (k, rest) => (.item (cells.getD k blank), m.write i d rest k blank)
      | none => (.refused .empty, m)
    | .peek =>
      match span.next? d with
      | some (k, _) => (.item (cells.getD k blank), m)
      | none => (.refused .empty, m)
    | .clone => (.slot m.spans.length, m.make d (m.items span))

/-- **A sound memory**: every stretch lies in its array, and no two lie in the same one. -/
structure Sound (m : Memory α) : Prop where
  array_lt {i : ℕ} {p : Discipline × Span} (h : m.spans[i]? = some p) : p.2.array < m.arrays.length
  within {i : ℕ} {p : Discipline × Span} (h : m.spans[i]? = some p) :
    p.2.start + p.2.length ≤ (m.cells p.2.array).length
  apart {i j : ℕ} {p q : Discipline × Span} (hi : m.spans[i]? = some p) (hj : m.spans[j]? = some q)
    (h : i ≠ j) : p.2.array ≠ q.2.array

variable {m m' : Memory α} {i : ℕ} {d : Discipline} {s span : Span}

theorem slots_getElem? (m : Memory α) (i : ℕ) :
    m.slots[i]? = m.spans[i]?.map fun p => p.1.hold (m.items p.2) := by
  rw [slots, List.getElem?_map]

/-- **A container is replaced.**  The arrays of the others are not touched, and its array is not one
of them. -/
theorem Sound.replace (h : m.Sound) (hi : i < m.spans.length)
    (hspans : m'.spans = m.spans.set i (d, s)) (hlen : m.arrays.length ≤ m'.arrays.length)
    (hothers : ∀ j p, m.spans[j]? = some p → j ≠ i →
      p.2.array ≠ s.array ∧ m'.cells p.2.array = m.cells p.2.array)
    (hlt : s.array < m'.arrays.length) (hs : s.start + s.length ≤ (m'.cells s.array).length) :
    m'.Sound ∧ m'.slots = m.slots.set i (d.hold (m'.items s)) := by
  -- the stretch of a container is `s`, or it is as it was
  have hcases {j : ℕ} {p : Discipline × Span} (hj : m'.spans[j]? = some p) :
      j = i ∧ p = (d, s) ∨ j ≠ i ∧ m.spans[j]? = some p := by
    rw [hspans] at hj
    rcases eq_or_ne j i with rfl | hne
    · rw [List.getElem?_set_self hi] at hj
      exact .inl ⟨rfl, (Option.some.inj hj).symm⟩
    · rw [List.getElem?_set_ne hne.symm] at hj
      exact .inr ⟨hne, hj⟩
  refine ⟨⟨?_, ?_, ?_⟩, ?_⟩
  · intro j p hj
    rcases hcases hj with ⟨-, rfl⟩ | ⟨-, hj⟩
    · exact hlt
    · exact Nat.lt_of_lt_of_le (h.array_lt hj) hlen
  · intro j p hj
    rcases hcases hj with ⟨-, rfl⟩ | ⟨hne, hj⟩
    · exact hs
    · rw [(hothers j p hj hne).2]
      exact h.within hj
  · intro j k p q hj hk hjk
    rcases hcases hj with ⟨rfl, rfl⟩ | ⟨hne, hj⟩ <;> rcases hcases hk with ⟨rfl, rfl⟩ | ⟨hne', hk⟩
    · exact absurd rfl hjk
    · exact (hothers k q hk hne').1.symm
    · exact (hothers j p hj hne).1
    · exact h.apart hj hk hjk
  · refine List.ext_getElem? fun j => ?_
    rw [slots_getElem?, hspans]
    rcases eq_or_ne j i with rfl | hne
    · rw [List.getElem?_set_self hi, List.getElem?_set_self (by rwa [slots, List.length_map]),
        Option.map_some]
    · rw [List.getElem?_set_ne hne.symm, List.getElem?_set_ne hne.symm, slots_getElem?]
      cases hj : m.spans[j]? with
      | none => rfl
      | some p => rw [Option.map_some, Option.map_some, items, items, (hothers j p hj hne).2]

/-- New arrays are not those that are in use. -/
theorem cells_append (arrays : List (List α)) (cells : List α) (spans : List (Discipline × Span))
    {a : ℕ} (ha : a < m.arrays.length) (hm : m.arrays = arrays) :
    (⟨arrays ++ [cells], spans⟩ : Memory α).cells a = m.cells a := by
  subst hm
  rw [Memory.cells, Memory.cells, List.getElem?_append_left ha]

theorem cells_append_self (arrays : List (List α)) (cells : List α)
    (spans : List (Discipline × Span)) :
    (⟨arrays ++ [cells], spans⟩ : Memory α).cells arrays.length = cells := by
  rw [Memory.cells, List.getElem?_append_right (Nat.le_refl _), Nat.sub_self]
  rfl

section Sound
variable (h : m.Sound) (hi : m.spans[i]? = some (d, span))
include h

theorem Sound.make (d : Discipline) (xs : List α) :
    (m.make d xs).Sound ∧ (m.make d xs).slots = m.slots ++ [d.hold xs] := by
  have hcases {j : ℕ} {p : Discipline × Span} (hj : (m.make d xs).spans[j]? = some p) :
      j = m.spans.length ∧ p = (d, ⟨m.arrays.length, 0, xs.length⟩) ∨ m.spans[j]? = some p := by
    rcases Nat.lt_or_ge j m.spans.length with hlt | hge
    · rw [Memory.make, List.getElem?_append_left hlt] at hj
      exact .inr hj
    · rw [Memory.make, List.getElem?_append_right hge, List.getElem?_singleton] at hj
      split_ifs at hj with h0
      exact .inl ⟨by omega, (Option.some.inj hj).symm⟩
  have hold {j : ℕ} {p : Discipline × Span} (hj : m.spans[j]? = some p) :
      (m.make d xs).cells p.2.array = m.cells p.2.array :=
    cells_append _ _ _ (h.array_lt hj) rfl
  have hnew : (m.make d xs).cells m.arrays.length = xs := cells_append_self _ _ _
  refine ⟨⟨?_, ?_, ?_⟩, ?_⟩
  · intro j p hj
    have hlen : (m.make d xs).arrays.length = m.arrays.length + 1 := List.length_append
    rcases hcases hj with ⟨-, rfl⟩ | hj
    · rw [hlen]
      exact Nat.lt_succ_self _
    · have := h.array_lt hj
      omega
  · intro j p hj
    rcases hcases hj with ⟨-, rfl⟩ | hj
    · exact Nat.le_of_eq (by rw [hnew, Nat.zero_add])
    · rw [hold hj]
      exact h.within hj
  · intro j k p q hj hk hjk
    rcases hcases hj with ⟨rfl, rfl⟩ | hj <;> rcases hcases hk with ⟨rfl, rfl⟩ | hk
    · exact absurd rfl hjk
    · exact Nat.ne_of_gt (h.array_lt hk)
    · exact Nat.ne_of_lt (h.array_lt hj)
    · exact h.apart hj hk hjk
  · have hlast : (m.make d xs).items ⟨m.arrays.length, 0, xs.length⟩ = xs := by
      rw [items, hnew, Span.items, List.drop_zero, List.take_length]
    have hfirst : m.spans.map (fun p => p.1.hold ((m.make d xs).items p.2)) = m.slots := by
      refine List.map_congr_left fun p hp => ?_
      obtain ⟨j, hj⟩ := List.getElem?_of_mem hp
      rw [items, items, hold hj]
    rw [slots, Memory.make, List.map_append, List.map_singleton, ← Memory.make, hfirst, hlast]

include hi

theorem Sound.write (hs : s.array = span.array)
    (hb : s.start + s.length ≤ (m.cells span.array).length) (k : ℕ) (x : α) :
    (m.write i d s k x).Sound ∧ (m.write i d s k x).slots =
      m.slots.set i (d.hold (s.items ((m.cells span.array).set k x))) := by
  have hlt := h.array_lt hi
  have hself : (m.write i d s k x).cells s.array = (m.cells span.array).set k x := by
    rw [cells, Memory.write, hs, List.getElem?_set_self hlt, Option.getD_some]
  have hitems : (m.write i d s k x).items s = s.items ((m.cells span.array).set k x) := by
    rw [items, hself]
  obtain ⟨hlti, -⟩ := List.getElem?_eq_some_iff.mp hi
  have hlen : (m.write i d s k x).arrays.length = m.arrays.length := List.length_set
  rw [← hitems]
  refine h.replace hlti rfl (Nat.le_of_eq hlen.symm) ?_ (by rwa [hlen, hs])
    (by rwa [hself, List.length_set])
  intro j p hj hne
  have hapart : p.2.array ≠ s.array := hs ▸ h.apart hj hi hne
  refine ⟨hapart, ?_⟩
  rw [cells, Memory.write, List.getElem?_set_ne hapart.symm, ← cells]

theorem Sound.move {n : ℕ} {xs : List α} (hn : n ≤ xs.length) :
    (m.move i d n xs).Sound ∧ (m.move i d n xs).slots = m.slots.set i (d.hold (xs.take n)) := by
  have hself : (m.move i d n xs).cells m.arrays.length = xs := cells_append_self _ _ _
  have hitems : (m.move i d n xs).items ⟨m.arrays.length, 0, n⟩ = xs.take n := by
    rw [items, hself, Span.items, List.drop_zero]
  obtain ⟨hlti, -⟩ := List.getElem?_eq_some_iff.mp hi
  have hlen : (m.move i d n xs).arrays.length = m.arrays.length + 1 := List.length_append
  rw [← hitems]
  refine h.replace hlti rfl (by omega) ?_ (by rw [hlen]; exact Nat.lt_succ_self _)
    (by rwa [hself, Nat.zero_add])
  intro j p hj hne
  exact ⟨Nat.ne_of_lt (h.array_lt hj), cells_append _ _ _ (h.array_lt hj) rfl⟩

end Sound

/-! ### Steps and runs in memory -/

/-- **A step in memory is the step on the containers that it holds.** -/
theorem Sound.step (h : m.Sound) (blank : α) (spare : ℕ → ℕ) (i : ℕ) (s : Step α) :
    (m.step blank spare i s).2.Sound ∧ (m.step blank spare i s).1 = (Slots.step m.slots i s).1 ∧
      (m.step blank spare i s).2.slots = (Slots.step m.slots i s).2 := by
  cases hi : m.spans[i]? with
  | none =>
    have hslot : m.slots[i]? = none := by rw [slots_getElem?, hi, Option.map_none]
    rw [step_of_none hslot, Memory.step, hi]
    exact ⟨h, rfl, rfl⟩
  | some p =>
    obtain ⟨d, span⟩ := p
    have hslot : m.slots[i]? = some (d.hold (m.items span)) := by
      rw [slots_getElem?, hi, Option.map_some]
    have hwithin : span.start + span.length ≤ (m.cells span.array).length := h.within hi
    have hnext := Span.next?_items hwithin blank d
    have hsome {x : α} {ys : List α} (hx : d.next? (m.items span) = some (x, ys)) :
        ∃ k rest, span.next? d = some (k, rest) ∧ (m.cells span.array).getD k blank = x ∧
          rest.items ((m.cells span.array).set k blank) = ys := by
      obtain ⟨⟨k, rest⟩, hrest, heq⟩ := Option.map_eq_some_iff.mp (hnext.symm.trans hx)
      exact ⟨k, rest, hrest, Prod.mk.inj heq⟩
    have hnone (he : m.items span = []) : span.next? d = none := by
      rwa [← Discipline.next?_eq_none, items, hnext, Option.map_eq_none_iff] at he
    have hlength : m.slots.length = m.spans.length := List.length_map _
    have hsame := set_of_getElem? hslot
    obtain ⟨ys, copies, hacts, hafter⟩ := acts_step hslot s
    rw [hlength] at hacts
    rw [hafter]
    generalize (Slots.step m.slots i s).1 = a at hacts ⊢
    cases hacts with
    | push x =>
      rw [List.map_nil, List.append_nil]
      by_cases hfit : span.start + span.length < (m.cells span.array).length
      · have hstep : m.step blank spare i (.push x) = (.done, m.write i d
            ⟨span.array, span.start, span.length + 1⟩ (span.start + span.length) x) := by
          simp only [Memory.step, hi, if_pos hfit]
        rw [hstep, items, ← Span.items_push hfit x]
        obtain ⟨hsound, hslots⟩ := h.write hi (s := ⟨span.array, span.start, span.length + 1⟩) rfl
          hfit (span.start + span.length) x
        exact ⟨hsound, rfl, hslots⟩
      · have hstep : m.step blank spare i (.push x) = (.done, m.move i d (span.length + 1)
            (m.items span ++ x :: List.replicate (spare span.length) blank)) := by
          simp only [Memory.step, hi, if_neg hfit]
        have hlen : (m.items span).length = span.length := Span.length_items hwithin
        have htake : (m.items span ++ x :: List.replicate (spare span.length) blank).take
            (span.length + 1) = m.items span ++ [x] := by
          rw [← hlen, List.take_length_add_append]
          rfl
        rw [hstep, ← htake]
        have hfits : span.length + 1 ≤
            (m.items span ++ x :: List.replicate (spare span.length) blank).length := by
          rw [List.length_append, hlen, List.length_cons]
          omega
        obtain ⟨hsound, hslots⟩ := h.move hi hfits
        exact ⟨hsound, rfl, hslots⟩
    | pop hpop =>
      obtain ⟨k, rest, hrest, rfl, rfl⟩ := hsome hpop
      have hstep : m.step blank spare i .pop =
          (.item ((m.cells span.array).getD k blank), m.write i d rest k blank) := by
        simp only [Memory.step, hi, hrest]
      obtain ⟨harray, hbounds⟩ := Span.next?_bounds hrest
      obtain ⟨hsound, hslots⟩ := h.write hi harray (Nat.le_trans hbounds hwithin) k blank
      rw [hstep, List.map_nil, List.append_nil]
      exact ⟨hsound, rfl, hslots⟩
    | peek hpeek =>
      obtain ⟨k, rest, hrest, rfl, -⟩ := hsome hpeek
      have hstep : m.step blank spare i .peek =
          (.item ((m.cells span.array).getD k blank), m) := by
        simp only [Memory.step, hi, hrest]
      rw [hstep, List.map_nil, List.append_nil, hsame]
      exact ⟨h, rfl, rfl⟩
    | popEmpty he =>
      have hstep : m.step blank spare i .pop = (.refused .empty, m) := by
        simp only [Memory.step, hi, hnone he]
      rw [hstep, List.map_nil, List.append_nil, hsame]
      exact ⟨h, rfl, rfl⟩
    | peekEmpty he =>
      have hstep : m.step blank spare i .peek = (.refused .empty, m) := by
        simp only [Memory.step, hi, hnone he]
      rw [hstep, List.map_nil, List.append_nil, hsame]
      exact ⟨h, rfl, rfl⟩
    | clone =>
      have hstep : m.step blank spare i .clone = (.slot m.spans.length, m.make d (m.items span)) := by
        simp only [Memory.step, hi]
      obtain ⟨hsound, hslots⟩ := h.make d (m.items span)
      rw [hstep, hsame, List.map_singleton]
      exact ⟨hsound, rfl, hslots⟩

section Run
variable (blank : α) (spare : ℕ → ℕ)

/-- The memory after a run. -/
def after (m : Memory α) (steps : List (ℕ × Step α)) : Memory α :=
  steps.foldl (fun m p => (m.step blank spare p.1 p.2).2) m

/-- What happened in a run in memory. -/
def events : Memory α → List (ℕ × Step α) → List (Event α)
  | _, [] => []
  | m, (i, s) :: steps =>
    ⟨i, s, (m.step blank spare i s).1⟩ :: events (m.step blank spare i s).2 steps

/-- The memory with the containers that are made from lists of items, one after the other. -/
def load (made : List (Discipline × List α)) : Memory α :=
  made.foldl (fun m p => m.make p.1 p.2) ⟨[], []⟩

theorem load_sound (made : List (Discipline × List α)) :
    (load made).Sound ∧ (load made).slots = start made := by
  induction made using List.reverseRecOn with
  | nil =>
    refine ⟨⟨?_, ?_, ?_⟩, rfl⟩
    · intro i p h
      cases h
    · intro i p h
      cases h
    · intro i j p q h
      cases h
  | append_singleton made p ih =>
    obtain ⟨hsound, hslots⟩ := ih.1.make p.1 p.2
    have hload : load (made ++ [p]) = (load made).make p.1 p.2 := by
      rw [load, List.foldl_append]
      rfl
    rw [hload, hslots, ih.2]
    exact ⟨hsound, by rw [start, start, List.map_append, List.map_singleton]⟩

theorem Sound.run (h : m.Sound) (steps : List (ℕ × Step α)) :
    (m.after blank spare steps).slots = Slots.after m.slots steps ∧
      m.events blank spare steps = Slots.events m.slots steps := by
  induction steps generalizing m with
  | nil => exact ⟨rfl, rfl⟩
  | cons p steps ih =>
    obtain ⟨i, s⟩ := p
    obtain ⟨hsound, hanswer, hslots⟩ := h.step blank spare i s
    obtain ⟨hafter, hevents⟩ := ih hsound
    rw [hslots] at hafter hevents
    refine ⟨hafter, ?_⟩
    rw [events, Slots.events, hanswer, hevents]

end Run

end Memory

end Slots

end Colloquy
