import Colloquy.Number.Binary
import Mathlib.Tactic.Linarith
import Mathlib.Tactic.Ring

/-!
# The nearest number of a format

Let `P = 2 ^ (precision - 1)` be the place of the leading bit (`Format.leading`).  A number of the
format is a significand of at most `2 * P` times a power of two, `units (s * P + q) = q * 2 ^ s`
(`units_shift`); and `Format.nearest` rounds a quotient to such a multiple of `2 ^ s`, where the
shift `s` is zero or large enough for the quotient to reach `P * 2 ^ s`.

* `units_nearest`: the number that `nearest` chooses, as a rounded significand times `2 ^ s`.
* `two_pow_dvd_units`: a number from `P * 2 ^ s` on is a multiple of `2 ^ s`.
* `units_nearest_le`, `le_units_nearest`: no number of the format lies strictly between a quotient
  and its nearest number.
* `roundNat_of_le`: naturals up to `2 ^ precision` are not changed by rounding.
* `roundNat_le_halfUp`: rounding a natural to the format does not take it past an integer to which a
  number of the format is rounded.
-/

namespace Colloquy

namespace Power

theorem two_eq (n : ℕ) : two n = 2 ^ n := rfl

end Power

namespace Rounding

variable {n d m : ℕ}

theorem toEven_le (hd : 0 < d) (h : n ≤ m * d) : toEven n d ≤ m := by
  have hq : n / d ≤ m := Nat.div_le_of_le_mul (by rwa [Nat.mul_comm])
  have hn := Nat.div_add_mod n d
  unfold toEven
  rcases Nat.lt_or_ge (n / d) m with hlt | hge
  · dsimp only
    split_ifs <;> omega
  · -- the quotient is exact
    have he : n / d = m := by omega
    have hr : n % d = 0 := by
      rw [he, Nat.mul_comm] at hn; omega
    simp only [hr, he]
    rw [if_pos (Or.inl (by omega))]

theorem le_toEven (hd : 0 < d) (h : m * d ≤ n) : m ≤ toEven n d := by
  have hq : m ≤ n / d := (Nat.le_div_iff_mul_le hd).mpr h
  unfold toEven
  dsimp only
  split_ifs <;> omega

theorem toEven_mul (hd : 0 < d) : toEven (m * d) d = m :=
  le_antisymm (toEven_le hd le_rfl) (le_toEven hd le_rfl)

theorem halfUp_mul (hd : 0 < d) : halfUp (m * d) d = m := by
  unfold halfUp
  rw [show 2 * (m * d) + d = d + m * (2 * d) by ring, Nat.add_mul_div_right _ _ (by omega),
    Nat.div_eq_of_lt (by omega), Nat.zero_add]

theorem halfUp_le (hd : 0 < d) (h : n ≤ m * d) : halfUp n d ≤ m := by
  rw [← halfUp_mul (m := m) hd]
  exact Nat.div_le_div_right (by omega)

end Rounding

namespace Format

variable (f : Format)

/-- The place of the leading bit of a significand. -/
def leading : ℕ := 2 ^ (f.precision - 1)

theorem leading_pos : 0 < f.leading := by unfold leading; positivity

/-- By how many bits the quotient `num / den` exceeds the precision of the format. -/
def shift (num den : ℕ) : ℕ := (num * 2 ^ f.finest / den).log2 + 1 - f.precision

theorem nearest_eq (num den : ℕ) : f.nearest num den = f.shift num den * f.leading +
    Rounding.toEven (num * 2 ^ f.finest) (den * 2 ^ f.shift num den) := rfl

variable {f}

/-! ### Codes and units -/

theorem units_of_lt {c : ℕ} (h : c < f.leading) : f.units c = c := by
  unfold units
  exact if_pos h

theorem units_of_le {c : ℕ} (h : f.leading ≤ c) :
    f.units c = (f.leading + c % f.leading) * 2 ^ (c / f.leading - 1) := by
  unfold units
  exact if_neg (by rw [Power.two_eq]; exact not_lt.mpr h)

/-- A significand times a power of two.  It need not be normal if the power is `1`. -/
theorem units_shift {s q : ℕ} (h : s = 0 ∨ f.leading ≤ q) (hq : q ≤ 2 * f.leading) :
    f.units (s * f.leading + q) = q * 2 ^ s := by
  have hP := f.leading_pos
  rcases Nat.lt_or_ge q f.leading with hlt | hge
  · obtain rfl : s = 0 := by omega
    rw [Nat.zero_mul, Nat.zero_add, units_of_lt hlt, pow_zero, Nat.mul_one]
  · have hle : f.leading ≤ s * f.leading + q := by omega
    rw [units_of_le hle]
    rcases Nat.lt_or_ge q (2 * f.leading) with hq' | hq'
    · have he : s * f.leading + q = (q - f.leading) + (s + 1) * f.leading := by
        rw [Nat.add_mul]; omega
      rw [he, Nat.add_mul_mod_self_right, Nat.mod_eq_of_lt (by omega),
        Nat.add_mul_div_right _ _ hP, Nat.div_eq_of_lt (by omega)]
      congr 1
      · omega
      · congr 1; omega
    · -- the significand was rounded up to the next power of two
      obtain rfl : q = 2 * f.leading := le_antisymm hq hq'
      have he : s * f.leading + 2 * f.leading = (s + 2) * f.leading := by ring
      rw [he, Nat.mul_mod_left, Nat.mul_div_cancel _ hP, Nat.add_zero]
      rw [show s + 2 - 1 = s + 1 by omega, pow_succ]
      ring

/-- **The larger a number, the coarser**: from `leading * 2 ^ s` on, all are multiples of
`2 ^ s`. -/
theorem two_pow_dvd_units {s c : ℕ} (h : f.leading * 2 ^ s ≤ f.units c) : 2 ^ s ∣ f.units c := by
  have hP := f.leading_pos
  rcases Nat.lt_or_ge c f.leading with hlt | hge
  · rw [units_of_lt hlt] at h
    have : f.leading ≤ f.leading * 2 ^ s := Nat.le_mul_of_pos_right _ (by positivity)
    omega
  · rw [units_of_le hge] at h ⊢
    have hmod : c % f.leading < f.leading := Nat.mod_lt _ hP
    have hdiv : 1 ≤ c / f.leading := (Nat.one_le_div_iff hP).mpr hge
    have hlt : 2 ^ s < 2 ^ (c / f.leading) := by
      have h2 : 2 ^ (c / f.leading) = 2 * 2 ^ (c / f.leading - 1) := by
        rw [← pow_succ', Nat.sub_add_cancel hdiv]
      have h3 : f.leading * 2 ^ s < f.leading * 2 ^ (c / f.leading) := by
        calc f.leading * 2 ^ s ≤ (f.leading + c % f.leading) * 2 ^ (c / f.leading - 1) := h
          _ < (2 * f.leading) * 2 ^ (c / f.leading - 1) :=
            Nat.mul_lt_mul_of_pos_right (by omega) (by positivity)
          _ = f.leading * 2 ^ (c / f.leading) := by rw [h2]; ring
      exact Nat.lt_of_mul_lt_mul_left h3
    have hs : s < c / f.leading := (Nat.pow_lt_pow_iff_right (by omega)).mp hlt
    exact Dvd.dvd.mul_left (pow_dvd_pow 2 (by omega)) _

/-! ### The significand that is rounded -/

theorem two_mul_leading (hp : 0 < f.precision) : 2 ^ f.precision = 2 * f.leading := by
  unfold leading; rw [← pow_succ', Nat.sub_add_cancel hp]

section Significand
variable {num den : ℕ} (hp : 0 < f.precision) (hden : 0 < den)
include hp hden

theorem scaled_le : num * 2 ^ f.finest ≤ 2 * f.leading * (den * 2 ^ f.shift num den) := by
  have hlt : num * 2 ^ f.finest / den < 2 ^ (f.precision + f.shift num den) := by
    rcases Nat.eq_zero_or_pos (num * 2 ^ f.finest / den) with h0 | hpos
    · rw [h0]; positivity
    · refine (Nat.log2_lt hpos.ne').mp ?_
      unfold shift; omega
  have h := (Nat.div_lt_iff_lt_mul hden).mp hlt
  rw [pow_add, two_mul_leading hp] at h
  calc num * 2 ^ f.finest ≤ 2 * f.leading * 2 ^ f.shift num den * den := h.le
    _ = 2 * f.leading * (den * 2 ^ f.shift num den) := by ring

theorem leading_mul_le (hs : 0 < f.shift num den) :
    f.leading * (den * 2 ^ f.shift num den) ≤ num * 2 ^ f.finest := by
  have hne : num * 2 ^ f.finest / den ≠ 0 := by
    intro h0
    unfold shift at hs
    rw [h0, Nat.log2_zero] at hs
    omega
  have hle : 2 ^ (f.precision - 1 + f.shift num den) ≤ num * 2 ^ f.finest / den := by
    refine (Nat.le_log2 hne).mp ?_
    unfold shift at hs ⊢; omega
  have h := (Nat.le_div_iff_mul_le hden).mp hle
  rw [pow_add] at h
  unfold leading
  calc 2 ^ (f.precision - 1) * (den * 2 ^ f.shift num den)
      = 2 ^ (f.precision - 1) * 2 ^ f.shift num den * den := by ring
    _ ≤ num * 2 ^ f.finest := h

/-- **The nearest number** is a rounded significand times a power of two. -/
theorem units_nearest : f.units (f.nearest num den) =
    Rounding.toEven (num * 2 ^ f.finest) (den * 2 ^ f.shift num den) * 2 ^ f.shift num den := by
  have hd : 0 < den * 2 ^ f.shift num den := by positivity
  rw [nearest_eq]
  refine units_shift ?_ (Rounding.toEven_le hd (scaled_le hp hden))
  rcases Nat.eq_zero_or_pos (f.shift num den) with hs | hs
  · exact Or.inl hs
  · exact Or.inr (Rounding.le_toEven hd (leading_mul_le hp hden hs))

theorem units_nearest_le {c : ℕ} (h : num * 2 ^ f.finest ≤ f.units c * den) :
    f.units (f.nearest num den) ≤ f.units c := by
  have hd : 0 < den * 2 ^ f.shift num den := by positivity
  -- the number is a multiple of the power of two by which the significand is shifted
  have hdvd : 2 ^ f.shift num den ∣ f.units c := by
    rcases Nat.eq_zero_or_pos (f.shift num den) with hs | hs
    · rw [hs, pow_zero]; exact one_dvd _
    · refine two_pow_dvd_units (Nat.le_of_mul_le_mul_right ?_ hden)
      calc f.leading * 2 ^ f.shift num den * den
          = f.leading * (den * 2 ^ f.shift num den) := by ring
        _ ≤ f.units c * den := (leading_mul_le hp hden hs).trans h
  obtain ⟨m, hm⟩ := hdvd
  rw [units_nearest hp hden, hm, Nat.mul_comm _ m]
  refine Nat.mul_le_mul_right _ (Rounding.toEven_le hd (h.trans_eq ?_))
  rw [hm]; ring

theorem le_units_nearest {c : ℕ} (h : f.units c * den ≤ num * 2 ^ f.finest) :
    f.units c ≤ f.units (f.nearest num den) := by
  have hd : 0 < den * 2 ^ f.shift num den := by positivity
  rw [units_nearest hp hden]
  rcases Nat.lt_or_ge (f.units c) (f.leading * 2 ^ f.shift num den) with hlt | hge
  · rcases Nat.eq_zero_or_pos (f.shift num den) with hs | hs
    · simp only [hs, pow_zero, Nat.mul_one]
      exact Rounding.le_toEven hden h
    · exact hlt.le.trans (Nat.mul_le_mul_right _
        (Rounding.le_toEven hd (leading_mul_le hp hden hs)))
  · obtain ⟨m, hm⟩ := two_pow_dvd_units hge
    rw [hm, Nat.mul_comm _ m]
    refine Nat.mul_le_mul_right _ (Rounding.le_toEven hd (Eq.trans_le ?_ h))
    rw [hm]; ring

end Significand

/-! ### Naturals -/

theorem shift_of_lt (hp : 0 < f.precision) {n : ℕ} (h : n < 2 ^ f.precision) :
    f.shift n 1 ≤ f.finest := by
  unfold shift
  rw [Nat.div_one]
  rcases Nat.eq_zero_or_pos n with rfl | hn
  · simp; omega
  · have hlt : (n * 2 ^ f.finest).log2 < f.precision + f.finest := by
      refine (Nat.log2_lt (by positivity)).mpr ?_
      rw [pow_add]
      exact Nat.mul_lt_mul_of_pos_right h (by positivity)
    omega

theorem shift_two_pow : f.shift (2 ^ f.precision) 1 = f.finest + 1 := by
  unfold shift
  rw [Nat.div_one, ← pow_add, Nat.log2_two_pow]
  omega

theorem roundNat_of_le (hp : 0 < f.precision) {n : ℕ} (h : n ≤ 2 ^ f.precision) :
    f.roundNat n = n := by
  have hdvd : 2 ^ f.shift n 1 ∣ n * 2 ^ f.finest := by
    rcases h.lt_or_eq with hlt | rfl
    · exact Dvd.dvd.mul_left (pow_dvd_pow 2 (shift_of_lt hp hlt)) n
    · rw [shift_two_pow, ← pow_add]
      exact pow_dvd_pow 2 (by omega)
  obtain ⟨m, hm⟩ := hdvd
  rw [Nat.mul_comm (2 ^ _) m] at hm
  unfold roundNat
  rw [units_nearest hp Nat.one_pos, Nat.one_mul, hm, Rounding.toEven_mul (by positivity),
    ← hm, Power.two_eq, Nat.mul_div_cancel _ (by positivity)]

/-- **Rounding a length does not take it past a rounded position.**  If the position is no integer,
it is so small that all naturals up to it are numbers of the format. -/
theorem roundNat_le_halfUp (hp : 0 < f.precision) {n c : ℕ}
    (h : n ≤ Rounding.halfUp (f.units c) (2 ^ f.finest)) :
    f.roundNat n ≤ Rounding.halfUp (f.units c) (2 ^ f.finest) := by
  have hd : 0 < 2 ^ f.finest := by positivity
  by_cases hdvd : 2 ^ f.finest ∣ f.units c
  · obtain ⟨m, hm⟩ := hdvd
    rw [Nat.mul_comm] at hm
    rw [hm, Rounding.halfUp_mul hd] at h ⊢
    have hle : f.units (f.nearest n 1) ≤ m * 2 ^ f.finest := by
      rw [← hm]
      refine units_nearest_le hp Nat.one_pos ?_
      rw [hm, Nat.mul_one]
      exact Nat.mul_le_mul_right _ h
    unfold roundNat
    exact Nat.div_le_of_le_mul (by rw [Nat.mul_comm]; exact hle)
  · have hlt : f.units c < f.leading * 2 ^ f.finest := by
      by_contra hge
      exact hdvd (two_pow_dvd_units (not_lt.mp hge))
    have hle := Rounding.halfUp_le hd hlt.le
    have hP := f.leading_pos
    rw [roundNat_of_le hp (by rw [two_mul_leading hp]; omega)]
    exact h

end Format

end Colloquy
