import Colloquy.Proofs.Indexing

/-!
# Positions and the elements that they fall on

A position is a double, taken at its exact value, and is rounded to the nearest integer.  Up to
`2 ^ 53` lengths are doubles themselves, and a position falls on an element exactly if it lies between
`-1/2` and the length less `1/2`.  Longer lengths are rounded before they are compared, but this
never lets an index past the end.

* `exists_resolve_iff`: the positions that are resolved.
* `Reached`: what an access by position gives, whether it reads or replaces, in a list or in a value.
-/

namespace Colloquy

namespace Indexing

variable {op : Text} {p : Double} {n : ℕ}

/-- **The positions of elements**: those between `-1/2` and the length less `1/2`. -/
theorem exists_resolve_iff (hn : n ≤ 2 ^ 53) :
    (∃ i, resolve op p n = .ok i) ↔ ∃ x, p.value? = some x ∧ -(1 / 2) < x ∧ x < n - 1 / 2 := by
  simp only [resolve_eq_ok, fallsOn_iff_of_le hn]
  constructor
  · rintro ⟨i, ⟨x, hx, hround⟩, hlt⟩
    exact ⟨x, hx, (hround.mem_range_iff n).mp ⟨by omega, by omega⟩⟩
  · rintro ⟨x, hx, hrange⟩
    obtain ⟨k, hk⟩ : ∃ k, p.round? = some k := by
      rcases p with _ | _ | _
      · cases hx
      · cases hx
      · exact ⟨_, rfl⟩
    obtain ⟨y, hy, hround⟩ := Binary.round?_eq_some.mp hk
    obtain rfl := Option.some.inj (hx.symm.trans hy)
    obtain ⟨h0, hlt⟩ := (hround.mem_range_iff n).mpr hrange
    exact ⟨k.toNat, ⟨x, hx, by rwa [Int.toNat_of_nonneg h0]⟩, by omega⟩

/-! ### Accesses -/

/-- **What an access by position gives**: the element at the index that is resolved, or the error
with which it is not. -/
inductive Reached {α : Type} (op : Text) (p : Double) (xs : List α) : Except Error α → Prop
  | found {i : ℕ} {x : α} (hi : resolve op p xs.length = .ok i) (hx : xs[i]? = some x) :
      Reached op p xs (.ok x)
  | outside {e : Error} (he : resolve op p xs.length = .error e) : Reached op p xs (.error e)

theorem reached_get {α : Type} (p : Double) (xs : List α) : Reached "get" p xs (get xs p) := by
  cases h : get xs p with
  | ok x =>
    obtain ⟨i, hi, hx⟩ := get_eq_ok.mp h
    exact .found (resolve_eq_ok.mpr hi) hx
  | error e => exact .outside (get_eq_error.mp h)

theorem reached_set {α : Type} (p : Double) (xs : List α) (x : α) :
    Reached "set" p xs ((set xs p x).map Prod.fst) := by
  cases h : resolve "set" p xs.length with
  | ok i =>
    obtain ⟨old, hold⟩ := (resolve_eq_ok.mp h).exists_element
    rw [set_of_fallsOn (resolve_eq_ok.mp h) hold]
    exact .found h hold
  | error e =>
    rw [set_of_unresolved h]
    exact .outside h

theorem reached_index {vec : Value} {t : ElementType} (ht : vec.elementType? = some t)
    (p : Double) : Reached "get" p vec.elements (vec.index p) := by
  rw [Value.index_eq_get ht]
  exact reached_get p vec.elements

theorem reached_setIndex {vec v x : Value} {t : ElementType} (ht : vec.elementType? = some t)
    (hx : Value.Stores t v x) (p : Double) :
    Reached "set" p vec.elements ((vec.setIndex p v).map Prod.fst) := by
  cases h : resolve "set" p vec.elements.length with
  | ok i =>
    obtain ⟨old, after, hold, -, hset⟩ := Value.setIndex_of_fallsOn ht hx (resolve_eq_ok.mp h)
    rw [hset]
    exact .found h hold
  | error e =>
    rw [Value.setIndex_of_unresolved ht hx h]
    exact .outside h

/-- **Positions are rounded to indices of elements.**  An index that is resolved is that of an
element, and the position is rounded to it; so all accesses by position give the element there, and
fail only if the position is not resolved.  For lengths that are doubles, the positions that are
resolved are known exactly. -/
theorem positions_on_elements (p : Double) :
    (∀ op n i, resolve op p n = .ok i →
      i < n ∧ ∃ x, p.value? = some x ∧ Rounding.HalfAway x i) ∧
    (∀ (op : Text) (n : ℕ), n ≤ 2 ^ 53 → ((∃ i, resolve op p n = .ok i) ↔
      ∃ x, p.value? = some x ∧ -(1 / 2) < x ∧ x < n - 1 / 2)) ∧
    (∀ (α : Type) (xs : List α) (x : α), Reached "get" p xs (get xs p) ∧
      Reached "set" p xs ((set xs p x).map Prod.fst)) ∧
    (∀ (vec : Value) t, vec.elementType? = some t → Reached "get" p vec.elements (vec.index p) ∧
      ∀ v x, Value.Stores t v x →
        Reached "set" p vec.elements ((vec.setIndex p v).map Prod.fst)) := by
  refine ⟨fun op n i h => ?_, fun op n hn => exists_resolve_iff hn, fun α xs x => ?_,
    fun vec t ht => ?_⟩
  · have hi := resolve_eq_ok.mp h
    exact ⟨hi.lt, hi.nearest⟩
  · exact ⟨reached_get p xs, reached_set p xs x⟩
  · exact ⟨reached_index ht p, fun v x hx => reached_setIndex ht hx p⟩

/-- The largest double below a half falls on the first element, and minus a half on none. -/
theorem positions_on_elements_half :
    let p : Double := .finite false ⟨0x3FDFFFFFFFFFFFFF, by decide⟩
    let q : Double := .finite true ⟨0x3FE0000000000000, by decide⟩
    resolve "get" p 1 = .ok 0 ∧ (∃ x, p.value? = some x ∧ -(1 / 2) < x ∧ x < (1 : ℕ) - 1 / 2) ∧
      q.value? = some (-(1 / 2)) ∧ ¬ ∃ i, resolve "get" q (2 ^ 53) = .ok i := by
  intro p q
  have hq : q.value? = some (-(1 / 2)) := by decide +kernel
  have hp : resolve "get" p 1 = .ok 0 := resolve_eq_ok.mpr (by decide +kernel)
  refine ⟨hp, ((positions_on_elements p).2.1 "get" 1 (by decide)).mp ⟨0, hp⟩, hq, ?_⟩
  rw [(positions_on_elements q).2.1 "get" (2 ^ 53) le_rfl, hq]
  rintro ⟨x, hx, hlt, -⟩
  obtain rfl := Option.some.inj hx
  exact lt_irrefl _ hlt

end Indexing

end Colloquy
