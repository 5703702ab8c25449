import Colloquy.Proofs.Number.Closeness

/-!
# Numbers that a format has

A quotient that is a number of the format is not changed by rounding to it.  This is so for every
significand that is not too long, times a power of two (`units_nearest_of_eq`).  So the integer that
a number is rounded to is again a number of its format (`roundInt_of_round?`), and a single is a
double of the same value (`same_convert`).
-/

namespace Colloquy

namespace Format

variable {f : Format}

section Nearest
variable {num den : ℕ} (hp : 0 < f.precision) (hden : 0 < den)
include hp hden

/-- **A number of the format** is its own nearest number. -/
theorem nearest_of_units {c : ℕ} (h : num * 2 ^ f.finest = f.units c * den) :
    f.nearest num den = c := by
  have hle := units_nearest_le hp hden h.le
  have hge := le_units_nearest hp hden h.ge
  exact units_strictMono.injective (le_antisymm hle hge)

/-- **A significand times a power of two** is a number of the format, unless it is too long. -/
theorem units_nearest_of_eq {q t : ℕ} (hq : q ≤ 2 ^ f.precision)
    (h : num * 2 ^ f.finest = q * 2 ^ t * den) : f.units (f.nearest num den) = q * 2 ^ t := by
  have hshift : f.shift num den = (q * 2 ^ t).log2 + 1 - f.precision := by
    rw [shift, h, Nat.mul_div_cancel _ hden]
  have hdvd : 2 ^ f.shift num den ∣ q * 2 ^ t := by
    rw [hshift]
    rcases hq.lt_or_eq with hlt | rfl
    · rcases Nat.eq_zero_or_pos (q * 2 ^ t) with h0 | hpos
      · rw [h0]
        exact dvd_zero _
      · -- the significand is short enough for the whole power to be left
        have hlog : (q * 2 ^ t).log2 < f.precision + t := by
          rw [Nat.log2_lt hpos.ne', pow_add]
          exact Nat.mul_lt_mul_of_pos_right hlt (by positivity)
        exact Dvd.dvd.mul_left (pow_dvd_pow 2 (by omega)) q
    · rw [← pow_add, Nat.log2_two_pow]
      exact pow_dvd_pow 2 (by omega)
  obtain ⟨m, hm⟩ := hdvd
  rw [units_nearest hp hden, h, hm, show 2 ^ f.shift num den * m * den =
    m * (den * 2 ^ f.shift num den) by ring, Rounding.toEven_mul (by positivity), Nat.mul_comm]

end Nearest

/-! ### Integers -/

/-- A number that is rounded to a large integer is this integer. -/
theorem dvd_units_of_lt_halfUp {c : ℕ}
    (h : f.leading < Rounding.halfUp (f.units c) (2 ^ f.finest)) : 2 ^ f.finest ∣ f.units c := by
  refine two_pow_dvd_units ?_
  by_contra hlt
  have := Rounding.halfUp_le (by positivity) (not_le.mp hlt).le
  omega

theorem units_eq_halfUp_mul {c : ℕ} (h : 2 ^ f.finest ∣ f.units c) :
    f.units c = Rounding.halfUp (f.units c) (2 ^ f.finest) * 2 ^ f.finest := by
  obtain ⟨m, hm⟩ := h
  rw [Nat.mul_comm] at hm
  rw [hm, Rounding.halfUp_mul (by positivity)]

/-- **The integer to which a number is rounded** is a number of the same format. -/
theorem roundNat_halfUp (hp : 0 < f.precision) (c : ℕ) :
    f.roundNat (Rounding.halfUp (f.units c) (2 ^ f.finest)) =
      Rounding.halfUp (f.units c) (2 ^ f.finest) := by
  rcases Nat.lt_or_ge f.leading (Rounding.halfUp (f.units c) (2 ^ f.finest)) with hlt | hge
  · have hunits := units_eq_halfUp_mul (dvd_units_of_lt_halfUp hlt)
    have hnearest : f.nearest (Rounding.halfUp (f.units c) (2 ^ f.finest)) 1 = c :=
      nearest_of_units hp Nat.one_pos (by rw [← hunits, Nat.mul_one])
    rw [roundNat, hnearest, Power.two_eq]
    exact Nat.div_eq_of_eq_mul_left (by positivity) hunits
  · have h2 := two_mul_leading hp
    exact roundNat_of_le hp (by omega)

end Format

namespace Binary

variable {f : Format}

theorem natAbs_of_round? {s : Bool} {c : Fin f.ceiling} {k : ℤ}
    (h : (finite s c : Binary f).round? = some k) :
    k.natAbs = Rounding.halfUp (f.units c) (2 ^ f.finest) := by
  simp only [round?, Option.some.injEq, Power.two_eq] at h
  split_ifs at h <;> omega

theorem roundInt_of_round? (hp : 0 < f.precision) {x : Binary f} {k : ℤ} (h : x.round? = some k) :
    f.roundInt k = k := by
  rcases x with _ | _ | ⟨s, c⟩
  · cases h
  · cases h
  · have hround := Format.roundNat_halfUp hp c
    have habs := natAbs_of_round? h
    rw [Format.roundInt, habs, hround, ← habs, Int.sign_mul_natAbs]

/-! ### Singles as doubles -/

/-- **The same number** in two formats, with the same sign. -/
inductive Same {f g : Format} : Binary f → Binary g → Prop
  | nan : Same .nan .nan
  | infinite (s : Bool) : Same (.infinite s) (.infinite s)
  | finite (s : Bool) {c : Fin f.ceiling} {d : Fin g.ceiling} (h : f.value c = g.value d) :
      Same (.finite s c) (.finite s d)

theorem exists_single_units (c : ℕ) :
    ∃ q t, Format.single.units c = q * 2 ^ t ∧ q ≤ 2 ^ 24 := by
  rcases Nat.lt_or_ge c Format.single.leading with h | h
  · exact ⟨c, 0, by rw [Format.units_of_lt h, pow_zero, Nat.mul_one], h.le.trans (by decide)⟩
  · refine ⟨_, _, Format.units_of_le h, ?_⟩
    have hmod := Nat.mod_lt c Format.single.leading_pos
    have hlead : 2 * Format.single.leading ≤ 2 ^ 24 := by decide
    omega

theorem nearest_single_lt (c : Fin Format.single.ceiling) :
    Format.double.nearest (Format.single.units c) (2 ^ Format.single.finest) <
      Format.double.ceiling := by
  have hle : Format.single.units c ≤ Format.single.units Format.single.ceiling :=
    Format.units_strictMono.monotone c.isLt.le
  have hgreatest : Format.single.units Format.single.ceiling * 2 ^ Format.double.finest ≤
      Format.double.units (Format.double.ceiling - 1) * 2 ^ Format.single.finest := by
    decide +kernel
  have hnear := Format.nearest_le (f := .double) (by decide) (by positivity)
    ((Nat.mul_le_mul_right _ hle).trans hgreatest)
  exact hnear.trans_lt (by decide)

/-- **A single is a double** of the same value. -/
theorem same_convert (x : Single) : Same x (convert x : Double) := by
  rcases x with _ | s | ⟨s, c⟩
  · exact .nan
  · exact .infinite s
  · obtain ⟨q, t, hunits, hq⟩ := exists_single_units c
    have hden : 0 < 2 ^ Format.single.finest := by positivity
    -- the steps of the doubles are finer by so many bits
    have hfiner : Format.double.finest = 925 + Format.single.finest := by decide
    have hscaled : Format.single.units c * 2 ^ Format.double.finest =
        q * 2 ^ (t + 925) * 2 ^ Format.single.finest := by
      rw [hunits, hfiner, pow_add, pow_add]
      simp only [Nat.mul_assoc]
    have hnearest := Format.units_nearest_of_eq (f := .double) (by decide) hden
      (hq.trans (by decide)) hscaled
    have hlt := nearest_single_lt c
    have hconvert : (convert (.finite s c : Single) : Double) = .finite s ⟨_, hlt⟩ := dif_pos hlt
    rw [hconvert]
    refine .finite s ?_
    have hscaledq : (Format.single.units c : ℚ) * 2 ^ Format.double.finest =
        (q * 2 ^ (t + 925) : ℕ) * 2 ^ Format.single.finest := by exact_mod_cast hscaled
    rw [Format.value, Format.value, hnearest, div_eq_div_iff (by positivity) (by positivity)]
    exact hscaledq

end Binary

end Colloquy
