import Colloquy.Proofs.Number.Exact

/-!
# Numbers of another width

`IsNearest f x c` says that no finite number of the format is nearer to `x` than the one with code
`c`, and that its significand is even if another one is as near.  The code that `Format.nearest`
gives is at most half a step of its significand away, and every other number is at least half a step
away (`nearest_spec`); so it is the nearest one, unless it is infinite.

It is infinite from the middle between the greatest finite number and the next power of two on
(`nearest_lt_iff`).  There both neighbours are equally near, and the significand of the greatest
number is odd.

* `narrows_convert`: a double becomes the nearest single.
* `Same.convert_eq`: a single comes back from the double of the same value.
-/

namespace Colloquy

namespace Rounding

/-- **Another natural is not nearer** than the one to which a quotient is rounded. -/
theorem toEven_spec {n d m : ℕ} (hd : 0 < d) (hm : m ≠ toEven n d) :
    |(toEven n d : ℚ) - n / d| < |(m : ℚ) - n / d| ∨
      |(toEven n d : ℚ) - n / d| = |(m : ℚ) - n / d| ∧ Even (toEven n d) := by
  have hnear := abs_toEven_sub_le (n := n) hd
  have hapart : (1 : ℚ) ≤ |(m : ℚ) - toEven n d| := by
    have hint : (1 : ℤ) ≤ |(m : ℤ) - toEven n d| := Int.one_le_abs (by omega)
    exact_mod_cast hint
  have htriangle : |(m : ℚ) - toEven n d| ≤ |(m : ℚ) - n / d| + |(toEven n d : ℚ) - n / d| := by
    rw [abs_sub_comm (toEven n d : ℚ)]
    exact abs_sub_le _ _ _
  rcases hnear.lt_or_eq with hlt | heq
  · left
    linarith
  · have hge : |(toEven n d : ℚ) - n / d| ≤ |(m : ℚ) - n / d| := by linarith
    exact hge.lt_or_eq.imp_right fun h => ⟨h, even_toEven hd heq⟩

/-- Everything below a natural number that the quotient reaches is further away than the one
chosen. -/
theorem abs_toEven_sub_lt {n d l : ℕ} {w : ℚ} (hd : 0 < d) (hl : l * d ≤ n) (hw : w < l) :
    |(toEven n d : ℚ) - n / d| < |w - n / d| := by
  have hnear := abs_toEven_sub_le (n := n) hd
  have hle : (l : ℚ) ≤ toEven n d := by exact_mod_cast le_toEven hd hl
  have hz : (l : ℚ) ≤ n / d := by
    rw [le_div_iff₀ (by exact_mod_cast hd)]
    exact_mod_cast hl
  rw [abs_of_neg (show w - (n : ℚ) / d < 0 by linarith), neg_sub]
  rcases le_or_gt (toEven n d : ℚ) (n / d) with hqz | hqz
  · rw [abs_of_nonpos (by linarith)]
    linarith
  · have hlt : l < toEven n d := by exact_mod_cast hz.trans_lt hqz
    have hstep : (l : ℚ) + 1 ≤ toEven n d := by exact_mod_cast hlt
    linarith [(abs_le.mp hnear).2]

end Rounding

namespace Format

variable {f : Format}

/-! ### Significands -/

/-- The significand of the number with a given code. -/
def significand (f : Format) (code : ℕ) : ℕ :=
  if code < f.leading then code else f.leading + code % f.leading

theorem even_leading (hp : 1 < f.precision) : Even f.leading := by
  unfold leading
  exact Nat.even_pow.mpr ⟨even_two, by omega⟩

/-- The last bit of a significand is the last bit of the code. -/
theorem even_significand (hp : 1 < f.precision) (c : ℕ) : Even (f.significand c) ↔ Even c := by
  have hlead := even_leading hp
  unfold significand
  split_ifs with h
  · exact Iff.rfl
  · have hc : f.leading * (c / f.leading) + c % f.leading = c := Nat.div_add_mod c f.leading
    have hmul : Even (f.leading * (c / f.leading)) := hlead.mul_right _
    rw [Nat.even_add, iff_true_left hlead, ← Nat.even_add.trans (iff_true_left hmul), hc]

/-! ### The nearest number -/

theorem value_strictMono : StrictMono f.value := by
  intro c d h
  have hunits : (f.units c : ℚ) < f.units d := by exact_mod_cast units_strictMono h
  unfold value
  gcongr

/-- **The finite number nearest to `x`**, of two equally near ones that with the even
significand. -/
structure IsNearest (f : Format) (x : ℚ) (c : ℕ) : Prop where
  near : ∀ d < f.ceiling, |f.value c - x| ≤ |f.value d - x|
  even : ∀ d < f.ceiling, d ≠ c → |f.value d - x| = |f.value c - x| → Even (f.significand c)

/-- A number is a multiple of the step `2 ^ s`, unless it is too small to be normal for it. -/
theorem dvd_units_or_lt (s c : ℕ) :
    2 ^ s ∣ f.units c ∨ 0 < s ∧ f.units c < f.leading * 2 ^ s := by
  rcases Nat.lt_or_ge (f.units c) (f.leading * 2 ^ s) with hlt | hge
  · rcases Nat.eq_zero_or_pos s with rfl | hs
    · exact Or.inl (one_dvd _)
    · exact Or.inr ⟨hs, hlt⟩
  · exact Or.inl (two_pow_dvd_units hge)

section Nearest
variable {num den : ℕ} (hden : 0 < den)
include hden

/-- The distance of a number from a quotient, in steps of the significand that is rounded. -/
theorem abs_value_sub (c : ℕ) : |f.value c - num / den| =
    |(f.units c : ℚ) / 2 ^ f.shift num den -
        (num * 2 ^ f.finest : ℕ) / (den * 2 ^ f.shift num den : ℕ)| *
      (2 ^ f.shift num den / 2 ^ f.finest) := by
  have hdq : (0 : ℚ) < den := by exact_mod_cast hden
  have hunit : (0 : ℚ) < 2 ^ f.shift num den / 2 ^ f.finest := by positivity
  rw [← abs_of_pos hunit, ← abs_mul, value]
  congr 1
  push_cast
  field_simp

variable (hp : 1 < f.precision)
include hp

/-- **No other number is nearer** than the one that is chosen.  A number is a multiple of the step
of the significand that is rounded, or lies below the quotient by more than half such a step. -/
theorem nearest_spec {c : ℕ} (hc : c ≠ f.nearest num den) :
    |f.value (f.nearest num den) - num / den| < |f.value c - num / den| ∨
      |f.value (f.nearest num den) - num / den| = |f.value c - num / den| ∧
        Even (f.nearest num den) := by
  have hp0 : 0 < f.precision := by omega
  have hd : 0 < den * 2 ^ f.shift num den := by positivity
  have hunit : (0 : ℚ) < 2 ^ f.shift num den / 2 ^ f.finest := by positivity
  have hunits : f.units (f.nearest num den) = _ := units_nearest hp0 hden
  have hne : f.units c ≠ f.units (f.nearest num den) := units_strictMono.injective.ne hc
  have hsteps {c m : ℕ} (h : f.units c = m * 2 ^ f.shift num den) :
      (f.units c : ℚ) / 2 ^ f.shift num den = m := by
    rw [div_eq_iff (by positivity)]
    exact_mod_cast h
  have hparity : Even (f.nearest num den) ↔
      Even (Rounding.toEven (num * 2 ^ f.finest) (den * 2 ^ f.shift num den)) := by
    rw [nearest_eq, Nat.even_add, iff_true_left ((even_leading hp).mul_left _)]
  rw [hparity, abs_value_sub hden, abs_value_sub hden, mul_lt_mul_iff_left₀ hunit,
    mul_left_inj' hunit.ne', hsteps hunits]
  rcases dvd_units_or_lt (f.shift num den) c with ⟨m, hm⟩ | ⟨hs, hlt⟩
  · rw [Nat.mul_comm] at hm
    rw [hsteps hm]
    refine Rounding.toEven_spec hd ?_
    rintro rfl
    exact hne (hm.trans hunits.symm)
  · left
    -- the number lies below the least normal significand, and the quotient does not
    have hw : (f.units c : ℚ) / 2 ^ f.shift num den < f.leading := by
      rw [div_lt_iff₀ (by positivity)]
      exact_mod_cast hlt
    exact Rounding.abs_toEven_sub_lt hd (leading_mul_le hp0 hden hs) hw

/-- **The limit of the numbers below an even code** is the middle between this one and the one
before. -/
theorem nearest_lt_iff {c : ℕ} (hc : 0 < c) (heven : Even c) :
    f.nearest num den < c ↔ (num : ℚ) / den < (f.value (c - 1) + f.value c) / 2 := by
  have hstep : f.value (c - 1) < f.value c := value_strictMono (by omega)
  constructor
  · intro hlt
    by_contra hge
    rw [not_lt] at hge
    have hle : f.value (f.nearest num den) ≤ f.value (c - 1) :=
      value_strictMono.monotone (by omega)
    have hfar : |f.value c - num / den| ≤ num / den - f.value (f.nearest num den) := by
      rw [abs_le]
      constructor <;> linarith
    have habs : |f.value (f.nearest num den) - num / den| =
        num / den - f.value (f.nearest num den) := by
      rw [abs_of_neg (by linarith), neg_sub]
    rcases nearest_spec hden hp hlt.ne' with hspec | ⟨hspec, hodd⟩
    · linarith
    · -- at the middle the even code is chosen
      rw [habs] at hspec
      have hmid : f.value (f.nearest num den) = f.value (c - 1) := by
        refine le_antisymm hle ?_
        rcases abs_cases (f.value c - (num : ℚ) / den) with ⟨h, -⟩ | ⟨h, -⟩ <;> linarith
      rw [value_strictMono.injective hmid] at hodd
      obtain ⟨k, rfl⟩ : ∃ k, c = k + 1 := ⟨c - 1, by omega⟩
      exact Nat.even_add_one.mp heven hodd
  · intro hlt
    by_contra hge
    rw [not_lt] at hge
    have hle : f.value c ≤ f.value (f.nearest num den) := value_strictMono.monotone hge
    have hnear : |f.value (c - 1) - num / den| < f.value (f.nearest num den) - num / den := by
      rw [abs_lt]
      constructor <;> linarith
    have habs : |f.value (f.nearest num den) - num / den| =
        f.value (f.nearest num den) - num / den := abs_of_pos (by linarith)
    have hne : c - 1 ≠ f.nearest num den := by omega
    rcases nearest_spec hden hp hne with hspec | ⟨hspec, -⟩ <;> linarith

theorem isNearest_nearest : f.IsNearest (num / den) (f.nearest num den) := by
  refine ⟨fun d _ => ?_, fun d _ hd heq => ?_⟩
  · rcases eq_or_ne d (f.nearest num den) with rfl | hd
    · exact le_rfl
    · exact (nearest_spec hden hp hd).elim le_of_lt fun h => h.1.le
  · rw [even_significand hp]
    exact (nearest_spec hden hp hd).elim (fun h => absurd heq h.ne') fun h => h.2

end Nearest

/-- **The least number that is too large for a format**: halfway between its greatest number and the
next power of two. -/
theorem limit_single : (single.value (single.ceiling - 1) + single.value single.ceiling) / 2 =
    2 ^ 128 - 2 ^ 103 := by
  decide +kernel

theorem limit_double : (double.value (double.ceiling - 1) + double.value double.ceiling) / 2 =
    2 ^ 1024 - 2 ^ 970 := by
  decide +kernel

theorem nearest_double_lt_iff (num : ℕ) {den : ℕ} (hden : 0 < den) :
    double.nearest num den < double.ceiling ↔ (num : ℚ) / den < 2 ^ 1024 - 2 ^ 970 := by
  rw [← limit_double]
  exact nearest_lt_iff hden (by decide) (by decide) (by decide)

end Format

namespace Binary

/-! ### Doubles as singles -/

/-- **A double in single precision**: the nearest single with the same sign, or infinity if it is
too large. -/
inductive Narrows : Double → Single → Prop
  | infinite (s : Bool) : Narrows (.infinite s) (.infinite s)
  | tooLarge (s : Bool) {c : Fin Format.double.ceiling}
      (h : 2 ^ 128 - 2 ^ 103 ≤ Format.double.value c) : Narrows (.finite s c) (.infinite s)
  | finite (s : Bool) {c : Fin Format.double.ceiling} {d : Fin Format.single.ceiling}
      (h : Format.double.value c < 2 ^ 128 - 2 ^ 103)
      (hd : Format.single.IsNearest (Format.double.value c) d) : Narrows (.finite s c) (.finite s d)

theorem narrows_convert {y : Double} (hy : y ≠ .nan) : Narrows y (convert y) := by
  rcases y with _ | s | ⟨s, c⟩
  · exact absurd rfl hy
  · exact .infinite s
  · have hden := Format.two_finest_pos .double
    have hvalue := Format.value_eq .double c
    have hlimit : Format.single.nearest (Format.double.units c) _ < Format.single.ceiling ↔ _ :=
      Format.nearest_lt_iff hden (by decide) (by decide) (by decide)
    rw [Format.limit_single, hvalue] at hlimit
    rw [convert, ofRatio, ofCode]
    split_ifs with h
    · refine .finite s (hlimit.mp h) ?_
      rw [← hvalue]
      exact Format.isNearest_nearest hden (by decide)
    · exact .tooLarge s (not_lt.mp fun hlt => h (hlimit.mpr hlt))

/-- **A single comes back** from its double. -/
theorem Same.convert_eq {x : Single} {y : Double} (h : Same x y) : convert y = x := by
  cases h with
  | nan => rfl
  | infinite s => rfl
  | @finite s c d h =>
    have hunits : Format.double.units d * 2 ^ Format.single.finest =
        Format.single.units c * Power.two Format.double.finest := by
      rw [Format.value, Format.value, div_eq_div_iff (by positivity) (by positivity)] at h
      refine Nat.cast_injective (R := ℚ) ?_
      rw [Power.two_eq, Nat.cast_mul, Nat.cast_mul, Nat.cast_pow, Nat.cast_pow, Nat.cast_ofNat]
      exact h.symm
    have hnearest := Format.nearest_of_units (by decide) (Format.two_finest_pos .double) hunits
    rw [convert, ofRatio, hnearest, ofCode, dif_pos c.isLt]

end Binary

end Colloquy
