import Colloquy.Proofs.Number.Decimal

/-!
# How close the nearest number is

The nearest number of a format differs from a quotient by half a step of the format at most, and a
step is either the finest one or a small part of the quotient (`abs_value_nearest_sub_le`).  For
doubles this is so little that six digits, read as a double, are given back by that double
(`sixDigits_of_value`), provided that they come from a number of the normal range.
-/

namespace Colloquy

namespace Format

variable {f : Format}

/-- **The exact value** of the number with a given code. -/
def value (f : Format) (code : ℕ) : ℚ := f.units code / 2 ^ f.finest

theorem two_finest_pos (f : Format) : 0 < Power.two f.finest := Nat.pow_pos (by decide)

theorem value_eq (f : Format) (c : ℕ) : (f.units c : ℚ) / (Power.two f.finest : ℕ) = f.value c := by
  rw [value, Power.two_eq, Nat.cast_pow, Nat.cast_ofNat]

theorem value_pos_iff {c : ℕ} : 0 < f.value c ↔ 0 < f.units c := by
  rw [value, div_pos_iff_of_pos_right (by positivity), Nat.cast_pos]

/-! ### The order of codes -/

theorem units_lt_units_succ (c : ℕ) : f.units c < f.units (c + 1) := by
  have hP := f.leading_pos
  -- the two numbers have significands `q` and `q + 1` under one shift
  have hstep {s q : ℕ} (hq : q < 2 * f.leading) (h : s = 0 ∨ f.leading ≤ q) :
      f.units (s * f.leading + q) < f.units (s * f.leading + q + 1) := by
    rw [Nat.add_assoc, units_shift h hq.le, units_shift (by omega) hq]
    exact Nat.mul_lt_mul_of_pos_right (Nat.lt_succ_self q) (by positivity)
  rcases Nat.lt_or_ge c f.leading with hlt | hge
  · simpa using hstep (s := 0) (q := c) (by omega) (Or.inl rfl)
  · have hdiv : 1 ≤ c / f.leading := (Nat.one_le_div_iff hP).mpr hge
    have hmod := Nat.mod_lt c hP
    have hc : (c / f.leading - 1) * f.leading + (f.leading + c % f.leading) = c := by
      have h := Nat.div_add_mod c f.leading
      obtain ⟨s, hs⟩ : ∃ s, c / f.leading = s + 1 := ⟨_, (Nat.sub_add_cancel hdiv).symm⟩
      rw [hs, Nat.mul_succ, Nat.mul_comm] at h
      rw [hs, Nat.add_sub_cancel]
      omega
    have h := hstep (s := c / f.leading - 1) (q := f.leading + c % f.leading) (by omega)
      (Or.inr (by omega))
    rwa [hc] at h

theorem units_strictMono : StrictMono f.units := strictMono_nat_of_lt_succ units_lt_units_succ

theorem units_pos {c : ℕ} (h : c ≠ 0) : 0 < f.units c :=
  Nat.zero_lt_of_lt (units_strictMono (Nat.pos_of_ne_zero h))

section Nearest
variable {num den : ℕ} (hp : 0 < f.precision) (hden : 0 < den)
include hp hden

theorem nearest_le {c : ℕ} (h : num * 2 ^ f.finest ≤ f.units c * den) : f.nearest num den ≤ c :=
  units_strictMono.le_iff_le.mp (units_nearest_le hp hden h)

/-! ### The distance -/

/-- The nearest number is at most half a step of its significand away. -/
theorem abs_value_nearest_sub_le_shift :
    |f.value (f.nearest num den) - num / den| ≤ 2 ^ f.shift num den / 2 ^ (f.finest + 1) := by
  have hdq : (0 : ℚ) < den := by exact_mod_cast hden
  have hround := Rounding.abs_toEven_sub_le (n := num * 2 ^ f.finest)
    (d := den * 2 ^ f.shift num den) (by positivity)
  have hunit : (0 : ℚ) < 2 ^ f.shift num den / 2 ^ f.finest := by positivity
  rw [value, units_nearest hp hden]
  push_cast at hround ⊢
  generalize (Rounding.toEven (num * 2 ^ f.finest) (den * 2 ^ f.shift num den) : ℚ) = q at *
  calc |q * 2 ^ f.shift num den / 2 ^ f.finest - num / den|
      = |q - num * 2 ^ f.finest / (den * 2 ^ f.shift num den)| *
          (2 ^ f.shift num den / 2 ^ f.finest) := by
        rw [← abs_of_pos hunit, ← abs_mul]
        congr 1
        field_simp
    _ ≤ 1 / 2 * (2 ^ f.shift num den / 2 ^ f.finest) := by gcongr
    _ = 2 ^ f.shift num den / 2 ^ (f.finest + 1) := by ring

/-- **The nearest number is near**: up to half the finest step, or up to the precision of the
format. -/
theorem abs_value_nearest_sub_le : |f.value (f.nearest num den) - num / den| ≤
    max (1 / 2 ^ (f.finest + 1)) ((num : ℚ) / den / 2 ^ f.precision) := by
  refine (abs_value_nearest_sub_le_shift hp hden).trans ?_
  have hdq : (0 : ℚ) < den := by exact_mod_cast hden
  rcases Nat.eq_zero_or_pos (f.shift num den) with hs | hs
  · refine le_max_of_le_left (le_of_eq ?_)
    rw [hs, pow_zero]
  · refine le_max_of_le_right ?_
    have hlead : (f.leading : ℚ) * (den * 2 ^ f.shift num den) ≤ num * 2 ^ f.finest := by
      exact_mod_cast leading_mul_le hp hden hs
    have hprec : (2 : ℚ) ^ f.precision = 2 * f.leading := by exact_mod_cast two_mul_leading hp
    have hpos : (0 : ℚ) < f.leading := by exact_mod_cast f.leading_pos
    rw [hprec, div_div, div_le_div_iff₀ (by positivity) (by positivity), pow_succ]
    linarith

end Nearest

/-! ### The normal range of doubles -/

/-- **A number of any format in the normal range of doubles.** -/
def Regular (f : Format) (c : ℕ) : Prop := 1 / 2 ^ 1022 ≤ f.value c ∧ f.value c < 2 ^ 1024

theorem regular_iff {c : ℕ} : f.Regular c ↔
    2 ^ f.finest ≤ f.units c * 2 ^ 1022 ∧ f.units c < 2 ^ 1024 * 2 ^ f.finest := by
  rw [Regular, value, div_le_div_iff₀ (by positivity) (by positivity), one_mul,
    div_lt_iff₀ (by positivity)]
  exact and_congr (by exact_mod_cast Iff.rfl) (by exact_mod_cast Iff.rfl)

theorem regular_single {c : ℕ} (h0 : c ≠ 0) (h : c < single.ceiling) : single.Regular c := by
  refine regular_iff.mpr ⟨?_, ?_⟩
  · have hpos : 1 ≤ single.units c := units_pos h0
    have hpow : 2 ^ single.finest ≤ 1 * 2 ^ 1022 := by decide +kernel
    exact hpow.trans (Nat.mul_le_mul_right _ hpos)
  · have hpow : single.units single.ceiling ≤ 2 ^ 1024 * 2 ^ single.finest := by decide +kernel
    exact (units_strictMono h).trans_le hpow

theorem regular_double {c : ℕ} (hlow : double.leading ≤ c) (h : c < double.ceiling) :
    double.Regular c := by
  refine regular_iff.mpr ⟨?_, ?_⟩
  · have hpow : 2 ^ double.finest ≤ double.units double.leading * 2 ^ 1022 := by decide +kernel
    exact hpow.trans (Nat.mul_le_mul_right _ (units_strictMono.monotone hlow))
  · have hpow : double.units double.ceiling ≤ 2 ^ 1024 * 2 ^ double.finest := by decide +kernel
    exact (units_strictMono h).trans_le hpow

end Format

/-! ### Six digits as a double -/

namespace Binary

theorem lt_of_pow_le {k : ℤ} {x : ℚ} (h : (10 : ℚ) ^ k ≤ x) (hx : x < 2 ^ 1024) : k < 309 := by
  have hbig : 2 ^ 1024 < 10 ^ 309 := by decide +kernel
  have hbigq : (2 : ℚ) ^ 1024 < 10 ^ (309 : ℤ) := by rw [zpow_ofNat]; exact_mod_cast hbig
  exact (zpow_lt_zpow_iff_right₀ (by norm_num)).mp (h.trans_lt (hx.trans hbigq))

theorem lt_of_lt_pow {k : ℤ} {x : ℚ} (h : x < 10 ^ k) (hx : 1 / 2 ^ 1022 ≤ x) : -308 < k := by
  have hbig : 2 ^ 1022 < 10 ^ 308 := by decide +kernel
  have hbigq : (10 : ℚ) ^ (-308 : ℤ) < 1 / 2 ^ 1022 := by
    rw [zpow_neg, zpow_ofNat, ← one_div]
    exact one_div_lt_one_div_of_lt (by positivity) (by exact_mod_cast hbig)
  exact (zpow_lt_zpow_iff_right₀ (by norm_num)).mp (hbigq.trans (hx.trans_lt h))

/-- The six digits of a double are not greater than the greatest double. -/
theorem scaled_le_greatest {m : ℕ} {k : ℤ} {x : ℚ} (hm : m ≤ 10 ^ 6)
    (hr : Decimal.Rounded 6 x m k) (hx : x < 2 ^ 1024) :
    (m : ℚ) * 10 ^ k ≤ (2 ^ 53 - 1 : ℕ) * 2 ^ 971 := by
  have hmq : (m : ℚ) ≤ 10 ^ 6 := by exact_mod_cast hm
  have hk : k ≤ 303 := by
    have := lt_of_pow_le hr.le hx
    omega
  rcases hk.eq_or_lt with rfl | hlt
  · -- the first six digits of the greatest double are 179769, and it is rounded down
    have hbound : 2 ^ 1024 * 2 < 359539 * 10 ^ 303 := by decide +kernel
    have hboundq : (2 : ℚ) ^ 1024 * 2 < 359539 * 10 ^ (303 : ℤ) := by
      rw [zpow_ofNat]; exact_mod_cast hbound
    have hscaled : x * 10 ^ (-303 : ℤ) < 359539 / 2 := by
      rw [zpow_neg, ← div_eq_mul_inv, div_lt_iff₀ (by positivity)]
      generalize (10 : ℚ) ^ (303 : ℤ) = t at hboundq ⊢
      generalize (2 : ℚ) ^ 1024 = b at hboundq hx
      linarith
    have hmlt : (m : ℚ) < 179770 := by linarith [(abs_le.mp hr.near).2]
    have hmle : m ≤ 179769 := Nat.lt_succ_iff.mp (by exact_mod_cast hmlt)
    have hfit : 179769 * 10 ^ 303 ≤ (2 ^ 53 - 1) * 2 ^ 971 := by decide +kernel
    rw [zpow_ofNat]
    exact_mod_cast (Nat.mul_le_mul_right _ hmle).trans hfit
  · have hpow : (10 : ℚ) ^ k ≤ 10 ^ (302 : ℤ) := zpow_le_zpow_right₀ (by norm_num) (by omega)
    have hfit : 10 ^ 6 * 10 ^ 302 ≤ (2 ^ 53 - 1) * 2 ^ 971 := by decide +kernel
    calc (m : ℚ) * 10 ^ k ≤ 10 ^ 6 * 10 ^ (302 : ℤ) := by gcongr
      _ ≤ (2 ^ 53 - 1 : ℕ) * 2 ^ 971 := by rw [zpow_ofNat]; exact_mod_cast hfit

theorem units_greatest : Format.double.units (Format.double.ceiling - 1) = (2 ^ 53 - 1) * 2 ^ 2045 := by
  decide +kernel

/-- What has six digits is far from the finest step of the doubles, if it comes from the normal
range. -/
theorem nearest_close {m : ℕ} {k : ℤ} {x q y : ℚ} (hm : m ≤ 10 ^ 6) (hq : q = m * 10 ^ k)
    (hlow : 1 / 2 ^ 1022 ≤ x) (hr : Decimal.Rounded 6 x m k)
    (hy : |y - q| ≤ max (1 / 2 ^ (1074 + 1)) (q / 2 ^ 53)) : |y * 10 ^ (-k) - m| < 1 / 20 := by
  have hk : (0 : ℚ) < 10 ^ k := by positivity
  have hqm : q * 10 ^ (-k) = m := by
    rw [hq, mul_assoc, ← zpow_add₀ (by norm_num), add_neg_cancel, zpow_zero, mul_one]
  have hmq : (m : ℚ) ≤ 10 ^ 6 := by exact_mod_cast hm
  have heq : |y * 10 ^ (-k) - m| = |y - q| * 10 ^ (-k) := by
    rw [← hqm, ← sub_mul, abs_mul, abs_of_pos (by positivity : (0 : ℚ) < 10 ^ (-k))]
  rw [heq]
  refine (mul_le_mul_of_nonneg_right hy (by positivity)).trans_lt ?_
  rw [max_mul_of_nonneg _ _ (by positivity), max_lt_iff]
  constructor
  · -- the unit of the last digit is more than a millionth of the least normal number
    have hunit : 1 / 2 ^ 1022 < (10 : ℚ) ^ 6 * 10 ^ k := by
      refine hlow.trans_lt (hr.lt.trans_eq ?_)
      rw [zpow_add₀ (by norm_num), zpow_natCast, mul_comm]
    rw [zpow_neg, ← div_eq_mul_inv, div_lt_iff₀ hk]
    have hstep : (1 : ℚ) / 2 ^ (1074 + 1) = 1 / 2 ^ 1022 / 2 ^ 53 := by
      rw [div_div, ← pow_add]
    rw [hstep]
    generalize (1 : ℚ) / 2 ^ 1022 = a at hunit ⊢
    norm_num at hunit ⊢
    linarith
  · have : q / 2 ^ 53 * 10 ^ (-k) = m / 2 ^ 53 := by rw [← hqm]; ring
    rw [this]
    calc (m : ℚ) / 2 ^ 53 ≤ 10 ^ 6 / 2 ^ 53 := by gcongr
      _ < 1 / 20 := by norm_num

variable {f : Format} {c : Fin f.ceiling}

theorem exists_sixDigits (h : 0 < f.units c) : ∃ (m : ℕ) (k : ℤ),
    sixDigits c = Decimal.ofScaled m k ∧ 10 ^ 5 ≤ m ∧ m ≤ 10 ^ 6 ∧
      Decimal.Rounded 6 (f.value c) m k := by
  obtain ⟨m, k, hsix, hm, hm', hr⟩ := Decimal.exists_nearest h f.two_finest_pos 5
  rw [f.value_eq] at hr
  exact ⟨m, k, hsix, hm, hm', hr⟩

/-- What is close to six digits has these six digits. -/
theorem sixDigits_of_close {m : ℕ} {k : ℤ} (hm : 10 ^ 5 ≤ m) (hm' : m ≤ 10 ^ 6)
    (h : |f.value c * 10 ^ (-k) - m| < 1 / 20) : c.val ≠ 0 ∧ sixDigits c = Decimal.ofScaled m k := by
  have hpos : 0 < f.units c := by
    rw [← Format.value_pos_iff]
    have hmq : (10 : ℚ) ^ 5 ≤ m := by exact_mod_cast hm
    have hscaled : 0 < f.value c * 10 ^ (-k) := by linarith [(abs_lt.mp h).1]
    exact pos_of_mul_pos_left hscaled (by positivity)
  constructor
  · intro h0
    rw [h0, Format.units_of_lt f.leading_pos] at hpos
    exact lt_irrefl 0 hpos
  · refine Decimal.nearest_eq_ofScaled hpos f.two_finest_pos hm hm' ?_
    rwa [Format.value_eq]

theorem normal_sixDigits (h : 0 < f.units c) : (sixDigits c).Normal := by
  obtain ⟨m, k, hsix, hm, -⟩ := exists_sixDigits h
  rw [hsix]
  exact Decimal.normal_ofScaled (by omega) k

section Regular
variable (h : f.Regular c)
include h

theorem units_pos_of_regular : 0 < f.units c :=
  Format.value_pos_iff.mp (h.1.trans_lt' (by positivity))

theorem exponent_sixDigits_lt : (sixDigits c).exponent.natAbs < 1000 := by
  obtain ⟨m, k, hsix, hm, hm', hr⟩ := exists_sixDigits (units_pos_of_regular h)
  have hw : 5 < Text.width m := Text.lt_width_iff.mpr hm
  have hw' : Text.width m ≤ 7 := Text.width_le_iff.mpr (by omega)
  have hk := lt_of_pow_le hr.le h.2
  have hk' := lt_of_lt_pow hr.lt h.1
  have he : (sixDigits c).exponent = Text.width m - 1 + k := by rw [hsix]; rfl
  omega

/-- **Six digits are given back by the double nearest to them.** -/
theorem sixDigits_of_value {num den : ℕ} (hden : 0 < den)
    (hval : (num : ℚ) / den = (sixDigits c).value) (s : Bool) :
    ∃ c' : Fin Format.double.ceiling, (ofRatio s num den : Double) = .finite s c' ∧ c'.val ≠ 0 ∧
      sixDigits c' = sixDigits c := by
  obtain ⟨m, k, hsix, hm, hm', hr⟩ := exists_sixDigits (units_pos_of_regular h)
  rw [hsix, Decimal.value_ofScaled] at hval
  rw [hsix]
  -- the nearest double is finite
  have hfit : Format.double.nearest num den < Format.double.ceiling := by
    refine Nat.lt_of_le_sub_one (by decide) (Format.nearest_le (by decide) hden ?_)
    have hle' := scaled_le_greatest hm' hr h.2
    rw [← hval, div_le_iff₀ (by exact_mod_cast hden)] at hle'
    have hnum : num ≤ (2 ^ 53 - 1) * 2 ^ 971 * den := by exact_mod_cast hle'
    have hpow : 2 ^ 2045 = 2 ^ 971 * 2 ^ Format.double.finest := by decide +kernel
    rw [units_greatest, hpow]
    generalize 2 ^ Format.double.finest = b
    calc num * b ≤ (2 ^ 53 - 1) * 2 ^ 971 * den * b := Nat.mul_le_mul_right _ hnum
      _ = (2 ^ 53 - 1) * (2 ^ 971 * b) * den := by
        generalize 2 ^ 971 = a
        ring
  -- and close to the six digits
  have hclose := nearest_close hm' hval h.1 hr
    (Format.abs_value_nearest_sub_le (f := .double) (by decide) hden)
  obtain ⟨hpos, hdigits⟩ := sixDigits_of_close (c := ⟨_, hfit⟩) hm hm' hclose
  refine ⟨⟨Format.double.nearest num den, hfit⟩, ?_, hpos, hdigits⟩
  rw [ofRatio, ofCode, dif_pos hfit]

end Regular

end Binary

end Colloquy
