import Colloquy.Proofs.Outcome
import Colloquy.Rendering
import Mathlib.Data.List.Forall2

/-!
# What can be rendered

A value is *renderable* if it is a scalar of a base type, or a container all of whose elements are.
The style does not enter into it: it only decides how the renderings of the elements are put between
brackets.  `Renders s v t` says that `t` is the rendering of `v`, and `Offends v x` that `v` has no
rendering because of `x`, which is `v` itself or its first element that is no such scalar.

* `render_eq_ok`: `Value.render` gives exactly the renderings.
* `render_eq_error`: it fails exactly on the values that offend, with the offending value.
* `renderable_iff`, `not_renderable_iff`: every value is on one of the two sides.
-/

namespace Colloquy

namespace Value

/-! ### Scalars -/

/-- A scalar of a base type. -/
def IsBase (v : Value) : Prop := ∃ (b : Base) (x : b.Carrier), v = scalar ⟨none, b⟩ x

/-- The text that a scalar is shown as. -/
inductive Shows : Value → Text → Prop
  | scalar (b : Base) (x : b.Carrier) : Shows (scalar ⟨none, b⟩ x) (b.render x)

theorem renderScalar?_eq_some {v : Value} {t : Text} : v.renderScalar? = some t ↔ Shows v t := by
  constructor
  · intro h
    unfold renderScalar? at h
    split at h
    · cases h; exact .scalar _ _
    · cases h
  · rintro ⟨b, x⟩; rfl

theorem isBase_iff {v : Value} : v.IsBase ↔ ∃ t, Shows v t := by
  constructor
  · rintro ⟨b, x, rfl⟩; exact ⟨_, .scalar b x⟩
  · rintro ⟨_, b, x⟩; exact ⟨b, x, rfl⟩

theorem renderScalar?_eq_none {v : Value} : v.renderScalar? = none ↔ ¬ v.IsBase := by
  rw [isBase_iff, Option.eq_none_iff_forall_ne_some]
  simp only [ne_eq, renderScalar?_eq_some, not_exists]

instance : DecidablePred IsBase := fun v =>
  decidable_of_iff (v.renderScalar? ≠ none) (by rw [Ne, renderScalar?_eq_none, not_not])

theorem container?_eq_none_of_isBase {v : Value} (h : v.IsBase) : v.container? = none := by
  obtain ⟨b, x, rfl⟩ := h; rfl

/-! ### Elements -/

theorem isBase_of_forall₂ {vs : List Value} {ts : List Text} (h : List.Forall₂ Shows vs ts) :
    ∀ v ∈ vs, IsBase v := by
  induction h with
  | nil => simp
  | cons hv _ ih => exact List.forall_mem_cons.mpr ⟨isBase_iff.mpr ⟨_, hv⟩, ih⟩

theorem shows_map {b : Base} (xs : List b.Carrier) :
    List.Forall₂ Shows (xs.map (.scalar ⟨none, b⟩)) (xs.map b.render) := by
  induction xs with
  | nil => exact .nil
  | cons x xs ih => exact .cons (.scalar b x) ih

theorem renderElements_eq_ok {vs : List Value} {ts : List Text} :
    renderElements vs = .ok ts ↔ List.Forall₂ Shows vs ts := by
  induction vs generalizing ts with
  | nil => simp [renderElements, eq_comm]
  | cons v vs ih =>
    rw [List.forall₂_cons_left_iff]
    unfold renderElements
    split
    · next t ht =>
      rw [renderScalar?_eq_some] at ht
      rw [Outcome.map_eq_ok]
      constructor
      · rintro ⟨us, hus, rfl⟩; exact ⟨t, us, ht, ih.mp hus, rfl⟩
      · rintro ⟨_, us, ht', hus, rfl⟩
        cases ht; cases ht'
        exact ⟨us, ih.mpr hus, rfl⟩
    · next hn =>
      rw [renderScalar?_eq_none, isBase_iff] at hn
      refine ⟨fun h => (by cases h), ?_⟩
      rintro ⟨t, us, ht, -, -⟩
      exact absurd ⟨t, ht⟩ hn

/-- **The first element without a rendering** is the one that is reported. -/
theorem renderElements_eq_error {vs : List Value} {e : Error} :
    renderElements vs = .error e ↔ ∃ pre x post, vs = pre ++ x :: post ∧
      (∀ u ∈ pre, IsBase u) ∧ ¬ x.IsBase ∧ e = .unsupported "say" x := by
  induction vs with
  | nil => simp [renderElements]
  | cons v vs ih =>
    unfold renderElements
    split
    · next t ht =>
      have hv : v.IsBase := isBase_iff.mpr ⟨t, renderScalar?_eq_some.mp ht⟩
      rw [Outcome.map_eq_error, ih]
      constructor
      · rintro ⟨pre, x, post, rfl, hpre, hx, rfl⟩
        exact ⟨v :: pre, x, post, rfl, by simpa using ⟨hv, hpre⟩, hx, rfl⟩
      · rintro ⟨_ | ⟨u, pre⟩, x, post, heq, hpre, hx, rfl⟩
        · obtain ⟨rfl, -⟩ := List.cons.inj heq
          exact absurd hv hx
        · obtain ⟨rfl, rfl⟩ := List.cons.inj heq
          exact ⟨pre, x, post, rfl, fun u hu => hpre u (by simp [hu]), hx, rfl⟩
    · next hn =>
      rw [renderScalar?_eq_none] at hn
      constructor
      · intro h; cases h; exact ⟨[], v, vs, rfl, by simp, hn, rfl⟩
      · rintro ⟨_ | ⟨u, pre⟩, x, post, heq, hpre, hx, rfl⟩
        · obtain ⟨rfl, -⟩ := List.cons.inj heq; rfl
        · obtain ⟨rfl, -⟩ := List.cons.inj heq
          exact absurd (hpre v (by simp)) hn

/-! ### Values -/

/-- **A renderable value**: a scalar of a base type, or a container of such scalars. -/
def Renderable (v : Value) : Prop :=
  v.IsBase ∨ ∃ k, v.container? = some k ∧ ∀ e ∈ k.elements, IsBase e

/-- **The rendering of a value** in the style `s`. -/
inductive Renders (s : Style) : Value → Text → Prop
  | scalar {v : Value} {t : Text} (h : Shows v t) : Renders s v t
  | container {v : Value} {k : Container} {ts : List Text} (hk : v.container? = some k)
      (h : List.Forall₂ Shows k.elements ts) : Renders s v (enclose s ts)

/-- **What keeps a value from being rendered**: the value itself, or the first element of a
container that is no scalar of a base type. -/
inductive Offends : Value → Value → Prop
  | itself {v : Value} (hv : ¬ v.IsBase) (hk : v.container? = none) : Offends v v
  | element {v : Value} {k : Container} {pre : List Value} {x : Value} {post : List Value}
      (hk : v.container? = some k) (he : k.elements = pre ++ x :: post)
      (hpre : ∀ u ∈ pre, IsBase u) (hx : ¬ x.IsBase) : Offends v x

theorem render_eq_ok {s : Style} {v : Value} {t : Text} : v.render s = .ok t ↔ Renders s v t := by
  unfold render
  split
  · next u hu =>
    have hs := renderScalar?_eq_some.mp hu
    constructor
    · intro h; cases h; exact .scalar hs
    · rintro (h | ⟨hk, -⟩)
      · cases hs; cases h; rfl
      · rw [container?_eq_none_of_isBase (isBase_iff.mpr ⟨u, hs⟩)] at hk; cases hk
  · next hn =>
    rw [renderScalar?_eq_none, isBase_iff] at hn
    split
    · next k hk =>
      rw [Outcome.map_eq_ok]
      constructor
      · rintro ⟨ts, hts, rfl⟩; exact .container hk (renderElements_eq_ok.mp hts)
      · rintro (h | ⟨hk', h⟩)
        · exact absurd ⟨t, h⟩ hn
        · cases hk.symm.trans hk'
          exact ⟨_, renderElements_eq_ok.mpr h, rfl⟩
    · next hk =>
      refine ⟨fun h => (by cases h), ?_⟩
      rintro (h | ⟨hk', -⟩)
      · exact absurd ⟨t, h⟩ hn
      · rw [hk] at hk'; cases hk'

theorem render_eq_error {s : Style} {v : Value} {e : Error} :
    v.render s = .error e ↔ ∃ x, Offends v x ∧ e = .unsupported "say" x := by
  unfold render
  split
  · next u hu =>
    have hb : v.IsBase := isBase_iff.mpr ⟨u, renderScalar?_eq_some.mp hu⟩
    refine ⟨fun h => (by cases h), ?_⟩
    rintro ⟨x, h | ⟨hk, -⟩, -⟩
    · exact absurd hb ‹_›
    · rw [container?_eq_none_of_isBase hb] at hk; cases hk
  · next hn =>
    rw [renderScalar?_eq_none] at hn
    split
    · next k hk =>
      rw [Outcome.map_eq_error, renderElements_eq_error]
      constructor
      · rintro ⟨pre, x, post, he, hpre, hx, rfl⟩; exact ⟨x, .element hk he hpre hx, rfl⟩
      · rintro ⟨x, h | ⟨hk', he, hpre, hx⟩, rfl⟩
        · rw [hk] at *; contradiction
        · cases hk.symm.trans hk'
          exact ⟨_, x, _, he, hpre, hx, rfl⟩
    · next hk =>
      constructor
      · intro h; cases h; exact ⟨v, .itself hn hk, rfl⟩
      · rintro ⟨x, h | ⟨hk', -⟩, rfl⟩
        · rfl
        · rw [hk] at hk'; cases hk'

theorem renderable_iff {v : Value} (s : Style) : v.Renderable ↔ ∃ t, Renders s v t := by
  constructor
  · rintro (h | ⟨k, hk, h⟩)
    · obtain ⟨t, ht⟩ := isBase_iff.mp h
      exact ⟨t, .scalar ht⟩
    · cases hr : renderElements k.elements with
      | ok ts => exact ⟨_, .container hk (renderElements_eq_ok.mp hr)⟩
      | error e =>
        obtain ⟨pre, x, post, he, -, hx, -⟩ := renderElements_eq_error.mp hr
        exact absurd (h x (by simp [he])) hx
  · rintro ⟨t, h | ⟨hk, h⟩⟩
    · exact .inl (isBase_iff.mpr ⟨t, h⟩)
    · exact .inr ⟨_, hk, isBase_of_forall₂ h⟩

theorem not_renderable_iff {v : Value} : ¬ v.Renderable ↔ ∃ x, Offends v x := by
  rw [renderable_iff .plain]
  simp only [← render_eq_ok]
  cases h : v.render .plain with
  | ok t =>
    refine iff_of_false (by simp) ?_
    rintro ⟨x, hx⟩
    rw [render_eq_error.mpr ⟨x, hx, rfl⟩] at h; cases h
  | error e =>
    obtain ⟨x, hx, -⟩ := render_eq_error.mp h
    exact iff_of_true (by simp) ⟨x, hx⟩

instance : DecidablePred Renderable := fun v =>
  decidable_of_iff (v.render .plain).isOk (by
    rw [renderable_iff .plain]
    simp only [← render_eq_ok]
    cases v.render .plain <;> simp [Except.isOk, Except.toBool])

end Value

end Colloquy
