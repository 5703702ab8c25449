import Colloquy.Number.Decimal
import Colloquy.Proofs.Number.Nearest
import Colloquy.Proofs.Text.Digits
import Mathlib.Algebra.Order.Field.Power
import Mathlib.Algebra.Order.Field.Rat
import Mathlib.Data.List.TakeWhile
import Mathlib.Tactic.FieldSimp
import Mathlib.Tactic.NormNum
import Mathlib.Tactic.Positivity

/-!
# Decimals and the numbers that they stand for

`Decimal.value` is the exact value of a decimal, and a decimal without trailing zeros is determined
by it (`ofScaled_eq_of_value_eq`).  A quotient rounded to six digits is a multiple `m * 10 ^ k` with
`10 ^ 5 ≤ m ≤ 10 ^ 6` that is at most half a unit `10 ^ k` away (`exists_nearest`), and what is very
close to such a multiple is rounded to it again (`nearest_eq_ofScaled`).  The latter holds at the
powers of ten too.  Below such a power the digits are ten times finer than above, but it is itself a
multiple of both units, and the decimal without its trailing zeros is the same.
-/

namespace Colloquy

namespace Power

theorem ten_eq (n : ℕ) : ten n = 10 ^ n := rfl

theorem scale_snd_pos {num den : ℕ} (h : 0 < den) (k : ℤ) : 0 < (scale num den k).2 := by
  unfold scale
  split_ifs
  · exact h
  · exact Nat.mul_pos h (Nat.pow_pos (by decide))

theorem scale_eq (num den : ℕ) (k : ℤ) :
    ((scale num den k).1 : ℚ) / (scale num den k).2 = (num : ℚ) / den * 10 ^ k := by
  unfold scale
  split_ifs with hk
  · obtain ⟨n, rfl⟩ := Int.eq_ofNat_of_zero_le hk
    simp only [Int.toNat_natCast, ten_eq, Nat.cast_mul, Nat.cast_pow, Nat.cast_ofNat, zpow_natCast]
    ring
  · obtain ⟨n, hn⟩ : ∃ n : ℕ, k = -(n : ℤ) := ⟨(-k).toNat, by omega⟩
    subst hn
    simp only [neg_neg, Int.toNat_natCast, ten_eq, Nat.cast_mul, Nat.cast_pow, Nat.cast_ofNat,
      zpow_neg, zpow_natCast]
    rw [div_mul_eq_div_div, div_eq_mul_inv (_ / _)]

end Power

/-! ### Rounding to a natural -/

namespace Rounding

variable {n d m : ℕ}

/-- Twice a quotient lies between the odd neighbours of twice the natural to which it is rounded, and
reaches one of them only if that natural is even. -/
theorem toEven_bounds (hd : 0 < d) :
    2 * n ≤ 2 * (toEven n d * d) + d ∧ 2 * (toEven n d * d) ≤ 2 * n + d ∧
      (2 * n = 2 * (toEven n d * d) + d ∨ 2 * (toEven n d * d) = 2 * n + d → Even (toEven n d)) := by
  have hn : n / d * d + n % d = n := Nat.div_add_mod' n d
  have hr := Nat.mod_lt n hd
  unfold toEven
  dsimp only
  split_ifs with h
  · refine ⟨by omega, by omega, fun htie => Nat.even_iff.mpr ?_⟩
    omega
  · rw [Nat.add_mul, Nat.one_mul]
    refine ⟨by omega, by omega, fun htie => Nat.even_iff.mpr ?_⟩
    omega

theorem abs_toEven_sub_le (hd : 0 < d) : |(toEven n d : ℚ) - n / d| ≤ 1 / 2 := by
  have hdq : (0 : ℚ) < d := by exact_mod_cast hd
  obtain ⟨hle, hge, -⟩ := toEven_bounds (n := n) hd
  have hleq : (2 : ℚ) * n ≤ 2 * (toEven n d * d) + d := by exact_mod_cast hle
  have hgeq : (2 : ℚ) * (toEven n d * d) ≤ 2 * n + d := by exact_mod_cast hge
  rw [abs_le, neg_le_sub_iff_le_add, div_le_iff₀ hdq, sub_le_iff_le_add, ← sub_le_iff_le_add',
    le_div_iff₀ hdq]
  constructor <;> linarith

/-- **A half is taken to the even neighbour.** -/
theorem even_toEven (hd : 0 < d) (h : |(toEven n d : ℚ) - n / d| = 1 / 2) : Even (toEven n d) := by
  have hdq : (d : ℚ) ≠ 0 := by exact_mod_cast hd.ne'
  refine (toEven_bounds hd).2.2 ?_
  rcases eq_or_eq_neg_of_abs_eq h with h | h
  · right
    rw [sub_eq_iff_eq_add] at h
    have : (2 : ℚ) * (toEven n d * d) = 2 * n + d := by
      rw [h]
      field_simp
      ring
    exact_mod_cast this
  · left
    rw [sub_eq_iff_eq_add] at h
    have : (2 : ℚ) * n = 2 * (toEven n d * d) + d := by
      rw [h]
      field_simp
      ring
    exact_mod_cast this

theorem toEven_eq_of_abs_lt (hd : 0 < d) (h : |(n : ℚ) / d - m| < 1 / 2) : toEven n d = m := by
  have he := abs_toEven_sub_le (n := n) hd
  rw [abs_lt] at h
  rw [abs_le] at he
  have h1 : (toEven n d : ℚ) < m + 1 := by linarith
  have h2 : (m : ℚ) < toEven n d + 1 := by linarith
  have h1' : toEven n d < m + 1 := by exact_mod_cast h1
  have h2' : m < toEven n d + 1 := by exact_mod_cast h2
  omega

end Rounding

namespace Decimal

/-! ### The exponent of the first digit -/

theorem exponent_unique {x : ℚ} {e l : ℤ} (he : (10 : ℚ) ^ e ≤ x) (he' : x < 10 ^ (e + 1))
    (hl : (10 : ℚ) ^ l ≤ x) (hl' : x < 10 ^ (l + 1)) : e = l := by
  have h1 := (zpow_lt_zpow_iff_right₀ (by norm_num : (1 : ℚ) < 10)).mp (he.trans_lt hl')
  have h2 := (zpow_lt_zpow_iff_right₀ (by norm_num : (1 : ℚ) < 10)).mp (hl.trans_lt he')
  omega

section Magnitude
variable {num den : ℕ} (hn : 0 < num) (hd : 0 < den)
include hn hd

theorem magnitude_spec : (10 : ℚ) ^ magnitude num den ≤ (num : ℚ) / den ∧
    (num : ℚ) / den < 10 ^ (magnitude num den + 1) := by
  have hdq : (0 : ℚ) < den := by exact_mod_cast hd
  have hnq : (0 : ℚ) < num := by exact_mod_cast hn
  unfold magnitude
  split_ifs with h
  · have hpos : 0 < Text.width (num / den) := Text.lt_width_iff.mpr (Nat.div_pos h hd)
    obtain ⟨w, hw⟩ : ∃ w, Text.width (num / den) = w + 1 := ⟨_, (Nat.sub_add_cancel hpos).symm⟩
    have hle : 10 ^ w ≤ num / den := Text.lt_width_iff.mp (by omega)
    have hlt : num / den < 10 ^ (w + 1) := Text.width_le_iff.mp hw.le
    rw [Nat.le_div_iff_mul_le hd] at hle
    rw [Nat.div_lt_iff_lt_mul hd] at hlt
    rw [hw, show ((w + 1 : ℕ) : ℤ) - 1 = w by omega, le_div_iff₀ hdq, div_lt_iff₀ hdq]
    exact ⟨by exact_mod_cast hle, by exact_mod_cast hlt⟩
  · -- the magnitude is that of the inverse, seen from below
    have hpos : 0 < Text.width ((den - 1) / num) :=
      Text.lt_width_iff.mpr (Nat.div_pos (by omega) hn)
    obtain ⟨w, hw⟩ : ∃ w, Text.width ((den - 1) / num) = w + 1 :=
      ⟨_, (Nat.sub_add_cancel hpos).symm⟩
    have hle : 10 ^ w ≤ (den - 1) / num := Text.lt_width_iff.mp (by omega)
    have hlt : (den - 1) / num < 10 ^ (w + 1) := Text.width_le_iff.mp hw.le
    rw [Nat.le_div_iff_mul_le hn] at hle
    rw [Nat.div_lt_iff_lt_mul hn] at hlt
    have hle' : (10 : ℚ) ^ w * num < den := by exact_mod_cast (show 10 ^ w * num < den by omega)
    have hlt' : (den : ℚ) ≤ 10 ^ (w + 1) * num := by
      exact_mod_cast (show den ≤ 10 ^ (w + 1) * num by omega)
    rw [hw, show -((w + 1 : ℕ) : ℤ) + 1 = -(w : ℤ) by omega, zpow_neg, zpow_neg, zpow_natCast,
      zpow_natCast, inv_eq_one_div, inv_eq_one_div]
    constructor
    · rw [div_le_div_iff₀ (by positivity) hdq]
      linarith
    · rw [div_lt_div_iff₀ hdq (by positivity)]
      linarith

theorem magnitude_eq {e : ℤ} (h : (10 : ℚ) ^ e ≤ (num : ℚ) / den)
    (h' : (num : ℚ) / den < 10 ^ (e + 1)) : magnitude num den = e := by
  obtain ⟨g, g'⟩ := magnitude_spec hn hd
  exact exponent_unique g g' h h'

end Magnitude

/-! ### Multiples of powers of ten -/

/-- **The exact value of a decimal.** -/
def value (d : Decimal) : ℚ := Text.ofPlaces d.digits * 10 ^ (d.exponent + 1 - d.digits.length)

theorem exists_trimZeros (ds : List ℕ) : ∃ z, ds = trimZeros ds ++ List.replicate z 0 := by
  have hz : ∃ z, ds.reverse.takeWhile (· == 0) = List.replicate z 0 := by
    refine ⟨_, List.eq_replicate_of_mem fun d hd => ?_⟩
    simpa using List.mem_takeWhile_imp hd
  obtain ⟨z, hz⟩ := hz
  refine ⟨z, ?_⟩
  rw [trimZeros, ← List.reverse_replicate, ← List.reverse_append, ← hz,
    List.takeWhile_append_dropWhile, List.reverse_reverse]

theorem getLast?_trimZeros (ds : List ℕ) : (trimZeros ds).getLast? ≠ some 0 := by
  rw [trimZeros, List.getLast?_reverse]
  intro h
  have hhead := List.head?_dropWhile_not (· == 0) ds.reverse
  rw [h] at hhead
  exact absurd hhead (by decide)

theorem value_ofScaled (m : ℕ) (k : ℤ) : (ofScaled m k).value = m * 10 ^ k := by
  obtain ⟨z, hz⟩ := exists_trimZeros (Text.places (Text.width m) m)
  have hlen : Text.width m = (trimZeros (Text.places (Text.width m) m)).length + z := by
    have := congrArg List.length hz
    rwa [Text.places, Text.length_placesIn, List.length_append, List.length_replicate] at this
  have hval : Text.ofPlaces (trimZeros (Text.places (Text.width m) m)) * 10 ^ z = m := by
    have h := Text.ofPlaces_places_of_le (le_refl (Text.width m))
    rwa [hz, Text.ofPlaces_append, List.length_replicate, Text.ofPlaces_replicate_zero,
      Nat.add_zero] at h
  unfold value ofScaled
  dsimp only
  rw [show ((Text.width m : ℤ) - 1 + k + 1 -
      (trimZeros (Text.places (Text.width m) m)).length) = z + k by omega,
    zpow_add₀ (by norm_num), zpow_natCast, ← mul_assoc]
  congr 1
  exact_mod_cast hval

theorem ofScaled_ten_mul {m : ℕ} (hm : 0 < m) (k : ℤ) : ofScaled (10 * m) k = ofScaled m (k + 1) := by
  have hd : Nat.digits 10 (10 * m) = 0 :: Nat.digits 10 m := Nat.digits_base_mul (by decide) hm
  unfold ofScaled
  dsimp only
  rw [Text.places_width, Text.places_width, Text.width_eq, Text.width_eq, hd, trimZeros, trimZeros,
    List.reverse_reverse, List.reverse_reverse, List.dropWhile_cons_of_pos (by decide),
    List.length_cons]
  congr 1
  push_cast
  ring

theorem ofScaled_pow_mul {m : ℕ} (hm : 0 < m) (j : ℕ) (k : ℤ) :
    ofScaled (10 ^ j * m) k = ofScaled m (k + j) := by
  induction j generalizing k with
  | zero => rw [pow_zero, one_mul, Nat.cast_zero, add_zero]
  | succ j ih =>
    rw [pow_succ', mul_assoc, ofScaled_ten_mul (by positivity), ih, Nat.cast_succ, add_assoc,
      add_comm (1 : ℤ)]

/-- **A decimal is determined by its value**, however the multiple is written. -/
theorem ofScaled_eq_of_value_eq {m n : ℕ} {k l : ℤ} (hm : 0 < m) (hn : 0 < n)
    (h : (m : ℚ) * 10 ^ k = n * 10 ^ l) : ofScaled m k = ofScaled n l := by
  wlog hkl : k ≤ l generalizing m n k l
  · exact (this hn hm h.symm (le_of_not_ge hkl)).symm
  obtain ⟨j, rfl⟩ := Int.le.dest hkl
  have hmn : (m : ℚ) = n * 10 ^ j := by
    rw [zpow_add₀ (by norm_num), zpow_natCast, mul_left_comm, mul_comm] at h
    exact mul_left_cancel₀ (zpow_ne_zero k (by norm_num : (10 : ℚ) ≠ 0)) h
  rw [← ofScaled_pow_mul hn, mul_comm]
  congr 1
  exact_mod_cast hmn

/-- **Digits as a decimal has them**: the first of them is not zero. -/
structure Normal (d : Decimal) : Prop where
  lt_ten : ∀ x ∈ d.digits, x < 10
  lead : ∃ x xs, d.digits = x :: xs ∧ x ≠ 0

theorem normal_ofScaled {m : ℕ} (hm : 0 < m) (k : ℤ) : (ofScaled m k).Normal := by
  obtain ⟨z, hz⟩ := exists_trimZeros (Text.places (Text.width m) m)
  have hlast := Nat.getLast_digit_ne_zero 10 hm.ne'
  have hhead : ∃ x xs, Text.places (Text.width m) m = x :: xs ∧ x ≠ 0 := by
    rw [Text.places_width, ← List.dropLast_append_getLast (Nat.digits_ne_nil_iff_ne_zero.mpr hm.ne'),
      List.reverse_append]
    exact ⟨_, _, rfl, hlast⟩
  obtain ⟨x, xs, hx, hne⟩ := hhead
  refine ⟨fun d hd => ?_, ?_⟩
  · have hmem : d ∈ Text.places (Text.width m) m := by
      rw [hz]
      exact List.mem_append_left _ hd
    exact Text.lt_of_mem_placesIn (by decide) hmem
  · cases ht : trimZeros (Text.places (Text.width m) m) with
    | nil =>
      -- then all digits are zero, and the first of them too
      rw [ht, List.nil_append, hx] at hz
      have h0 : x ∈ List.replicate z 0 := hz ▸ List.mem_cons_self
      exact absurd (List.eq_of_mem_replicate h0) hne
    | cons y ys =>
      rw [ht, hx, List.cons_append] at hz
      obtain ⟨rfl, -⟩ := List.cons.inj hz
      exact ⟨x, ys, ht, hne⟩

theorem Normal.lt_ten_padded {d : Decimal} (h : d.Normal) (k : ℕ) :
    ∀ x ∈ List.replicate k 0 ++ d.digits, x < 10 := by
  intro x hx
  rcases List.mem_append.mp hx with hx | hx
  · rw [List.eq_of_mem_replicate hx]; decide
  · exact h.lt_ten x hx

theorem Normal.value_bounds {d : Decimal} (h : d.Normal) :
    (10 : ℚ) ^ d.exponent ≤ d.value ∧ d.value < 10 ^ (d.exponent + 1) := by
  obtain ⟨x, xs, hx, h0⟩ := h.lead
  have hle := Text.le_ofPlaces_cons h0 xs
  have hlt := Text.ofPlaces_lt h.lt_ten
  have hpow (e : ℤ) : (10 : ℚ) ^ e = 10 ^ d.digits.length * 10 ^ (e - d.digits.length) := by
    rw [← zpow_natCast, ← zpow_add₀ (by norm_num), add_sub_cancel]
  rw [value]
  constructor
  · have hleq : (10 : ℚ) ^ xs.length ≤ Text.ofPlaces d.digits := by rw [hx]; exact_mod_cast hle
    have hexp : d.exponent = xs.length + (d.exponent + 1 - d.digits.length) := by
      rw [hx, List.length_cons]; push_cast; ring
    calc (10 : ℚ) ^ d.exponent = 10 ^ xs.length * 10 ^ (d.exponent + 1 - d.digits.length) := by
          rw [← zpow_natCast, ← zpow_add₀ (by norm_num), ← hexp]
      _ ≤ _ := by gcongr
  · have hltq : (Text.ofPlaces d.digits : ℚ) < 10 ^ d.digits.length := by exact_mod_cast hlt
    rw [hpow (d.exponent + 1)]
    gcongr

/-! ### Rounding to significant digits -/

section Nearest
variable {num den p : ℕ} {k : ℤ}

/-- The unit of the last digit is `10 ^ k` if the first of the `p + 1` digits stands at `k + p`. -/
theorem nearest_of_magnitude (h : magnitude num den = k + p) :
    nearest (p + 1) num den =
      ofScaled (Rounding.toEven (Power.scale num den (-k)).1 (Power.scale num den (-k)).2) k := by
  have hk : ((p + 1 : ℕ) : ℤ) - 1 - magnitude num den = -k := by
    rw [h]; push_cast; ring
  rw [nearest]
  simp only [hk, neg_neg]

/-- **Rounding to `n` significant digits.**  The last of the `n` digits of `x` counts units of
`10 ^ k`, and `m` is the number of units nearest to `x`, of two the even one. -/
structure Rounded (n : ℕ) (x : ℚ) (m : ℕ) (k : ℤ) : Prop where
  le : (10 : ℚ) ^ (k + n - 1) ≤ x
  lt : x < 10 ^ (k + n)
  near : |(m : ℚ) - x * 10 ^ (-k)| ≤ 1 / 2
  even : |(m : ℚ) - x * 10 ^ (-k)| = 1 / 2 → Even m

variable (hn : 0 < num) (hd : 0 < den)
include hn hd

/-- **A quotient rounded to `p + 1` digits** is the nearest multiple of the unit of its last digit. -/
theorem exists_nearest (p : ℕ) : ∃ (m : ℕ) (k : ℤ), nearest (p + 1) num den = ofScaled m k ∧
    10 ^ p ≤ m ∧ m ≤ 10 ^ (p + 1) ∧ Rounded (p + 1) (num / den) m k := by
  obtain ⟨k, hk⟩ : ∃ k, magnitude num den = k + p := ⟨_, (sub_add_cancel _ _).symm⟩
  obtain ⟨hle, hlt⟩ := magnitude_spec hn hd
  rw [hk] at hle hlt
  have hden : 0 < (Power.scale num den (-k)).2 := Power.scale_snd_pos hd (-k)
  have hdenq : (0 : ℚ) < (Power.scale num den (-k)).2 := by exact_mod_cast hden
  have hscale := Power.scale_eq num den (-k)
  have hpow (e : ℤ) : (10 : ℚ) ^ (k + e) * 10 ^ (-k) = 10 ^ e := by
    rw [← zpow_add₀ (by norm_num)]; congr 1; ring
  refine ⟨_, k, nearest_of_magnitude hk, Rounding.le_toEven hden ?_, Rounding.toEven_le hden ?_, ?_⟩
  · have h : (10 : ℚ) ^ p ≤ num / den * 10 ^ (-k) := by
      rw [← zpow_natCast, ← hpow]; gcongr
    rw [← hscale, le_div_iff₀ hdenq] at h
    exact_mod_cast h
  · have h : num / den * 10 ^ (-k) ≤ (10 : ℚ) ^ (p + 1) := by
      rw [← zpow_natCast, ← hpow (p + 1 : ℕ), Nat.cast_succ, ← add_assoc]; gcongr
    rw [← hscale, div_le_iff₀ hdenq] at h
    exact_mod_cast h
  · refine ⟨?_, ?_, ?_, ?_⟩
    · rwa [Nat.cast_succ, ← add_assoc, add_sub_cancel_right]
    · rwa [Nat.cast_succ, ← add_assoc]
    · rw [← hscale]
      exact Rounding.abs_toEven_sub_le hden
    · rw [← hscale]
      exact Rounding.even_toEven hden

theorem nearest_of_close {m : ℕ} {u : ℚ} (hu : (num : ℚ) / den * 10 ^ (-k) = u)
    (hle : 10 ^ p ≤ u) (hlt : u < 10 ^ (p + 1)) (h : |u - m| < 1 / 2) :
    nearest (p + 1) num den = ofScaled m k := by
  have hx : (num : ℚ) / den = u * 10 ^ k := by
    rw [← hu, mul_assoc, ← zpow_add₀ (by norm_num), neg_add_cancel, zpow_zero, mul_one]
  have hpow (n : ℕ) : (10 : ℚ) ^ (k + n) = 10 ^ n * 10 ^ k := by
    rw [zpow_add₀ (by norm_num), zpow_natCast, mul_comm]
  have hmag : magnitude num den = k + p := by
    refine magnitude_eq hn hd ?_ ?_
    · rw [hx, hpow]; gcongr
    · rw [hx, add_assoc, ← Nat.cast_succ, hpow]; gcongr
  rw [nearest_of_magnitude hmag, Rounding.toEven_eq_of_abs_lt (Power.scale_snd_pos hd _)]
  rwa [Power.scale_eq, hu]

/-- **What is close to a multiple is rounded to it.** -/
theorem nearest_eq_ofScaled {m : ℕ} (hm : 10 ^ p ≤ m) (hm' : m ≤ 10 ^ (p + 1))
    (h : |(num : ℚ) / den * 10 ^ (-k) - m| < 1 / 20) : nearest (p + 1) num den = ofScaled m k := by
  have hshift (e : ℤ) : (num : ℚ) / den * 10 ^ (-(k + e)) = num / den * 10 ^ (-k) * 10 ^ (-e) := by
    rw [mul_assoc, ← zpow_add₀ (by norm_num), neg_add]
  have hmq : (10 : ℚ) ^ p ≤ m := by exact_mod_cast hm
  have hmq' : (m : ℚ) ≤ 10 ^ (p + 1) := by exact_mod_cast hm'
  have hp : (1 : ℚ) ≤ 10 ^ p := one_le_pow₀ (by norm_num)
  have hpos : 0 < m := (Nat.pow_pos (by decide)).trans_le hm
  obtain ⟨hl, hr⟩ := abs_lt.mp h
  rcases lt_or_ge ((num : ℚ) / den * 10 ^ (-k)) (10 ^ p) with h1 | h1
  · -- just below a power of ten, where the digits are ten times finer
    have hmeq : (m : ℚ) = 10 ^ p := by
      have hlt : (m : ℚ) < 10 ^ p + 1 := by linarith
      have hlt' : m < 10 ^ p + 1 := by exact_mod_cast hlt
      exact le_antisymm (by exact_mod_cast Nat.lt_succ_iff.mp hlt') hmq
    rw [← neg_add_cancel_right k 1, ← ofScaled_ten_mul hpos]
    refine nearest_of_close hn hd (hshift (-1)) ?_ ?_ ?_
    · rw [neg_neg, zpow_one]; linarith
    · rw [neg_neg, zpow_one, pow_succ]; linarith
    · rw [neg_neg, zpow_one, abs_lt]
      push_cast
      constructor <;> linarith
  rcases lt_or_ge ((num : ℚ) / den * 10 ^ (-k)) (10 ^ (p + 1)) with h2 | h2
  · refine nearest_of_close hn hd rfl h1 h2 (h.trans ?_)
    norm_num
  · -- at the next power of ten or just above, where the digits are ten times coarser
    have hmeq : (m : ℚ) = 10 ^ (p + 1) := by
      have hlt : (10 : ℚ) ^ (p + 1) < m + 1 := by linarith
      have hlt' : 10 ^ (p + 1) < m + 1 := by exact_mod_cast hlt
      exact le_antisymm hmq' (by exact_mod_cast Nat.lt_succ_iff.mp hlt')
    have hm10 : m = 10 * 10 ^ p := by
      rw [← pow_succ']; exact_mod_cast hmeq
    rw [hm10, ofScaled_ten_mul (by positivity)]
    rw [pow_succ] at h2 hmeq
    refine nearest_of_close hn hd (hshift 1) ?_ ?_ ?_
    · rw [zpow_neg_one]; linarith
    · rw [zpow_neg_one, pow_succ]; linarith
    · rw [zpow_neg_one, abs_lt]
      push_cast
      constructor <;> linarith

end Nearest

end Decimal

end Colloquy
