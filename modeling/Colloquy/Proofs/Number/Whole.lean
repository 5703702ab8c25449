import Colloquy.Proofs.Number.Closeness

/-!
# The nearest whole number

A number is taken at its exact value (`Binary.value?`) and rounded to the nearest integer, a half away
from zero.  `Rounding.HalfAway x k` says that `x` is rounded to `k`, without saying how, and
`Binary.NearestInteger` says the same of a number.

* `HalfAway.mem_range_iff`: what is rounded to a natural below a bound.
* `round?_eq_some`: `Binary.round?` rounds so.
-/

namespace Colloquy

namespace Rounding

/-- **The nearest integer** to `x`, and of two the one that is farther from zero. -/
def HalfAway (x : ℚ) (k : ℤ) : Prop := |x - k| ≤ 1 / 2 ∧ (|x - k| = 1 / 2 → |x| < |(k : ℚ)|)

instance (x : ℚ) (k : ℤ) : Decidable (HalfAway x k) :=
  inferInstanceAs (Decidable (_ ∧ _))

theorem halfAway_neg {x : ℚ} {k : ℤ} : HalfAway (-x) (-k) ↔ HalfAway x k := by
  have hdist : |-x - ((-k : ℤ) : ℚ)| = |x - k| := by
    rw [← abs_neg]
    push_cast
    congr 1
    ring
  rw [HalfAway, HalfAway, hdist, abs_neg, Int.cast_neg, abs_neg]

theorem HalfAway.lt_add {x : ℚ} {k : ℤ} (h : HalfAway x k) (hk : 0 ≤ k) : x < k + 1 / 2 := by
  obtain ⟨-, hle⟩ := abs_le.mp h.1
  have hkq : (0 : ℚ) ≤ k := by exact_mod_cast hk
  refine lt_of_le_of_ne (by linarith) ?_
  rintro rfl
  have htie := h.2 (by rw [add_sub_cancel_left]; norm_num)
  rw [abs_of_nonneg (by linarith), abs_of_nonneg hkq] at htie
  linarith

theorem HalfAway.sub_lt {x : ℚ} {k : ℤ} (h : HalfAway x k) (hk : k ≤ 0) : k - 1 / 2 < x := by
  have hlt := (halfAway_neg.mpr h).lt_add (by omega)
  push_cast at hlt
  linarith

theorem HalfAway.unique {x : ℚ} {j k : ℤ} (hj : HalfAway x j) (hk : HalfAway x k) : j = k := by
  wlog hlt : j < k generalizing j k
  · rcases (not_lt.mp hlt).lt_or_eq with h | h
    · exact (this hk hj h).symm
    · exact h.symm
  exfalso
  obtain ⟨-, hj'⟩ := abs_le.mp hj.1
  obtain ⟨hk', -⟩ := abs_le.mp hk.1
  have hjk : (j : ℚ) + 1 ≤ k := by exact_mod_cast hlt
  have hkj : (k : ℚ) ≤ j + 1 := by linarith
  -- the two integers are neighbours, so zero does not lie strictly between them
  have hkj' : k ≤ j + 1 := by exact_mod_cast hkj
  rcases lt_or_ge j 0 with h0 | h0
  · linarith [hk.sub_lt (by omega)]
  · linarith [hj.lt_add h0]

/-- An integer lies in a range from zero on exactly if what is rounded to it does. -/
theorem HalfAway.mem_range_iff {x : ℚ} {k : ℤ} (h : HalfAway x k) (n : ℕ) :
    (0 ≤ k ∧ k < n) ↔ -(1 / 2) < x ∧ x < n - 1 / 2 := by
  obtain ⟨h1, h2⟩ := abs_le.mp h.1
  constructor
  · rintro ⟨hk, hkn⟩
    have hkq : (0 : ℚ) ≤ k := by exact_mod_cast hk
    have hknq : (k : ℚ) + 1 ≤ n := by exact_mod_cast hkn
    refine ⟨?_, by linarith [h.lt_add hk]⟩
    rcases hk.eq_or_lt with rfl | hpos
    · simpa using h.sub_lt le_rfl
    · have hposq : (1 : ℚ) ≤ k := by exact_mod_cast hpos
      linarith
  · rintro ⟨hx, hxn⟩
    have hk : (-1 : ℚ) < k := by linarith
    have hkn : (k : ℚ) < n := by linarith
    have hk' : -1 < k := by exact_mod_cast hk
    exact ⟨by omega, by exact_mod_cast hkn⟩

theorem halfAway_halfUp {n d : ℕ} (hd : 0 < d) : HalfAway ((n : ℚ) / d) (halfUp n d : ℕ) := by
  have hdq : (0 : ℚ) < d := by exact_mod_cast hd
  -- the quotient and the remainder of the division by which it is rounded
  have hdiv := Nat.div_add_mod (2 * n + d) (2 * d)
  have hmod := Nat.mod_lt (2 * n + d) (show 0 < 2 * d by omega)
  rw [← halfUp] at hdiv
  have hle : 2 * d * halfUp n d ≤ 2 * n + d := by omega
  have hlt : 2 * n + d < 2 * d * halfUp n d + 2 * d := by omega
  have hleq : (2 : ℚ) * d * halfUp n d ≤ 2 * n + d := by exact_mod_cast hle
  have hltq : (2 : ℚ) * n + d < 2 * d * halfUp n d + 2 * d := by exact_mod_cast hlt
  have hlow : (halfUp n d : ℚ) - 1 / 2 ≤ n / d := by
    rw [le_div_iff₀ hdq]
    linarith
  have hhigh : (n : ℚ) / d < halfUp n d + 1 / 2 := by
    rw [div_lt_iff₀ hdq]
    linarith
  rw [HalfAway, Int.cast_natCast]
  refine ⟨abs_le.mpr ⟨by linarith, by linarith⟩, fun htie => ?_⟩
  rw [abs_of_nonneg (by positivity), abs_of_nonneg (by positivity)]
  rcases eq_or_eq_neg_of_abs_eq htie with h | h <;> linarith

end Rounding

namespace Binary

variable {f : Format}

/-- **The exact value** of a number; a NaN and an infinity have none. -/
def value? : Binary f → Option ℚ
  | nan | infinite _ => none
  | finite s c => some (if s then -f.value c else f.value c)

/-- **The integer nearest to a number**, a half away from zero; a NaN and an infinity have none. -/
def NearestInteger (x : Binary f) (k : ℤ) : Prop := ∃ q, x.value? = some q ∧ Rounding.HalfAway q k

theorem round?_eq_some {x : Binary f} {k : ℤ} : x.round? = some k ↔ x.NearestInteger k := by
  unfold NearestInteger
  rcases x with _ | _ | ⟨s, c⟩
  · simp [round?, value?]
  · simp [round?, value?]
  · have hround := Rounding.halfAway_halfUp (n := f.units c) f.two_finest_pos
    rw [f.value_eq] at hround
    have hsigned : Rounding.HalfAway (if s then -f.value c else f.value c)
        (if s then -(Rounding.halfUp (f.units c) (Power.two f.finest) : ℤ)
          else Rounding.halfUp (f.units c) (Power.two f.finest)) := by
      cases s with
      | true => exact Rounding.halfAway_neg.mpr hround
      | false => exact hround
    simp only [round?, value?, Option.some.injEq, exists_eq_left']
    constructor
    · rintro rfl
      exact hsigned
    · intro hk
      exact hsigned.unique hk

instance (x : Binary f) (k : ℤ) : Decidable (x.NearestInteger k) :=
  decidable_of_iff _ round?_eq_some

theorem NearestInteger.unique {x : Binary f} {j k : ℤ} (hj : x.NearestInteger j)
    (hk : x.NearestInteger k) : j = k := by
  obtain ⟨q, hq, hj⟩ := hj
  obtain ⟨q', hq', hk⟩ := hk
  obtain rfl := Option.some.inj (hq.symm.trans hq')
  exact hj.unique hk

end Binary

end Colloquy
