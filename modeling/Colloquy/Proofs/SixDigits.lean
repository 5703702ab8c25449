import Colloquy.Proofs.Number.Closeness
import Colloquy.Proofs.Number.Written
import Colloquy.Rendering

/-!
# Numbers to six significant digits

`RoundsTo n x q` says that `q` is `x` rounded to `n` significant digits, to the nearest and a half to
the even last digit; there is one such `q` (`RoundsTo.unique`).  A finite number of either width is
rendered as its exact value rounded to six digits, in a text without needless zeros that denotes the
rounded value.  So the text is determined by the rounded value and the sign (`Shown.text_unique`),
and determines both (`Shown.value_unique`).
-/

namespace Colloquy

namespace Decimal

/-! ### Rounding -/

section Rounding
variable {n m m' : ℕ} {x : ℚ} {k k' : ℤ}

/-- **`q` is `x` rounded to `n` significant digits.** -/
inductive RoundsTo (n : ℕ) : ℚ → ℚ → Prop where
  | zero : RoundsTo n 0 0
  | digits {x : ℚ} {m : ℕ} {k : ℤ} (h : Rounded n x m k) : RoundsTo n x (m * 10 ^ k)

theorem Rounded.pos (h : Rounded n x m k) : 0 < x := (zpow_pos (by norm_num) _).trans_le h.le

theorem Rounded.count_le (h : Rounded n x m k) (h' : Rounded n x m' k) : m' ≤ m := by
  by_contra hlt
  rw [not_le] at hlt
  have hle : (m : ℚ) + 1 ≤ m' := by exact_mod_cast hlt
  obtain ⟨hl, -⟩ := abs_le.mp h.near
  obtain ⟨-, hr⟩ := abs_le.mp h'.near
  -- both are half a unit away, and so both are even, but they are neighbours
  have hm : (m : ℚ) - x * 10 ^ (-k) = -(1 / 2) := by linarith
  have hm' : (m' : ℚ) - x * 10 ^ (-k) = 1 / 2 := by linarith
  have hsucc : m' = m + 1 := by
    have : (m' : ℚ) = m + 1 := by linarith
    exact_mod_cast this
  have heven := h.even (by rw [hm, abs_neg]; norm_num)
  have heven' := h'.even (by rw [hm']; norm_num)
  rw [hsucc, Nat.even_add_one] at heven'
  exact heven' heven

theorem Rounded.unique (h : Rounded n x m k) (h' : Rounded n x m' k') : m = m' ∧ k = k' := by
  obtain rfl : k = k' := by
    have hlt := h.lt
    have hlt' := h'.lt
    rw [← sub_add_cancel (_ + _) 1] at hlt hlt'
    have := exponent_unique h.le hlt h'.le hlt'
    omega
  exact ⟨le_antisymm (h'.count_le h) (h.count_le h'), rfl⟩

theorem RoundsTo.unique {q r : ℚ} (h : RoundsTo n x q) (h' : RoundsTo n x r) : q = r := by
  cases h with
  | zero =>
    cases h' with
    | zero => rfl
    | digits hr => exact absurd rfl hr.pos.ne'
  | digits hr =>
    cases h' with
    | zero => exact absurd rfl hr.pos.ne'
    | digits hr' =>
      obtain ⟨rfl, rfl⟩ := hr.unique hr'
      rfl

end Rounding

/-! ### The texts of rounded numbers -/

/-- **The text of a multiple of a power of ten.** -/
inductive Shown : ℚ → Text → Prop where
  | zero : Shown 0 "0"
  | digits {m : ℕ} {k : ℤ} (hm : 0 < m) : Shown (m * 10 ^ k) (ofScaled m k).text

section Shown
variable {q r : ℚ} {t u : Text}

theorem Shown.text_unique (h : Shown q t) (h' : Shown r u) (hqr : q = r) : t = u := by
  rcases h with _ | hm
  · rcases h' with _ | hm'
    · rfl
    · exact absurd hqr (by positivity)
  · rcases h' with _ | hm'
    · exact absurd hqr (by positivity)
    · rw [ofScaled_eq_of_value_eq hm hm' hqr]

theorem plain_zero : Written.Plain "0" 0 :=
  ⟨⟨[0], [], by decide, Or.inl rfl, by decide⟩, rfl, by
    simp [Written.Mantissa.value, Text.ofPlaces]⟩

theorem Shown.form (h : Shown q t) :
    (Written.Plain t q ∧ ∀ e : ℤ, (10 : ℚ) ^ e ≤ q → q < 10 ^ (e + 1) → ¬ (e < -4 ∨ 6 ≤ e)) ∨
    (Written.Scientific t q ∧ q ≠ 0 ∧
      ∃ e : ℤ, (10 : ℚ) ^ e ≤ q ∧ q < 10 ^ (e + 1) ∧ (e < -4 ∨ 6 ≤ e)) := by
  rcases h with _ | @⟨m, k, hm⟩
  · refine Or.inl ⟨plain_zero, fun e he => ?_⟩
    exact absurd he (not_le.mpr (zpow_pos (by norm_num) e))
  · have hnormal := normal_ofScaled hm k
    have hlast : (ofScaled m k).digits.getLast? ≠ some 0 := getLast?_trimZeros _
    obtain ⟨hle, hlt⟩ := hnormal.value_bounds
    rw [← value_ofScaled]
    by_cases he : (ofScaled m k).exponent < -4 ∨ 6 ≤ (ofScaled m k).exponent
    · exact Or.inr ⟨Written.scientific_text hnormal hlast he,
        ((zpow_pos (by norm_num) _).trans_le hle).ne', _, hle, hlt, he⟩
    · refine Or.inl ⟨Written.plain_text hnormal hlast he, fun e hle' hlt' => ?_⟩
      rwa [exponent_unique hle' hlt' hle hlt]

theorem Shown.scientific_iff (h : Shown q t) : Written.Scientific t q ↔
    q ≠ 0 ∧ ∃ e : ℤ, (10 : ℚ) ^ e ≤ q ∧ q < 10 ^ (e + 1) ∧ (e < -4 ∨ 6 ≤ e) := by
  rcases h.form with ⟨hplain, hrange⟩ | ⟨hscientific, hrange⟩
  · refine iff_of_false hplain.not_scientific ?_
    rintro ⟨-, e, hle, hlt, he⟩
    exact hrange e hle hlt he
  · exact iff_of_true hscientific hrange

theorem Shown.plain_or_scientific (h : Shown q t) : Written.Plain t q ∨ Written.Scientific t q :=
  h.form.imp And.left And.left

theorem Shown.value_unique (h : Shown q t) (h' : Shown r t) : q = r := by
  rcases h.plain_or_scientific with h | h <;> rcases h'.plain_or_scientific with h' | h'
  · exact h.unique h'
  · exact absurd h' h.not_scientific
  · exact absurd h h'.not_scientific
  · exact h.unique h'

/-! ### Signs -/

/-- A text with a minus sign, if there is one. -/
def signed (s : Bool) (t : Text) : Text := if s then "-" ++ t else t

theorem Shown.ne_minus (h : Shown q t) (u : Text) : t ≠ 45 :: u := by
  rcases h.plain_or_scientific with ⟨m, rfl, -⟩ | ⟨m, e, -, -, -, rfl, -⟩
  · rw [← List.append_nil m.text]
    exact m.text_append_ne [] u
  · exact m.text_append_ne e.text u

theorem Shown.signed_inj (h : Shown q t) (h' : Shown r u) {s s' : Bool} :
    signed s t = signed s' u ↔ s = s' ∧ t = u := by
  refine ⟨fun heq => ?_, fun ⟨hs, ht⟩ => hs ▸ ht ▸ rfl⟩
  cases s <;> cases s'
  · exact ⟨rfl, heq⟩
  · exact absurd heq (h.ne_minus u)
  · exact absurd heq.symm (h'.ne_minus t)
  · exact ⟨rfl, (List.cons.inj heq).2⟩

end Shown

end Decimal

/-! ### Finite numbers -/

open Decimal

/-- **A finite number of either width**, by its sign bit and the code of its magnitude. -/
inductive FiniteNumber where
  | double (negative : Bool) (code : Fin Format.double.ceiling)
  | single (negative : Bool) (code : Fin Format.single.ceiling)

namespace FiniteNumber

def value : FiniteNumber → Value
  | double s c => .num (.finite s c)
  | single s c => .single (.finite s c)

def negative : FiniteNumber → Bool
  | double s _ => s
  | single s _ => s

/-- The exact magnitude. -/
def magnitude : FiniteNumber → ℚ
  | double _ c => Format.double.value c
  | single _ c => Format.single.value c

end FiniteNumber

/-- **The text of a number** shows its exact value rounded to six digits. -/
theorem Binary.exists_shown {f : Format} (c : Fin f.ceiling) : ∃ q t, RoundsTo 6 (f.value c) q ∧
    Shown q t ∧ ∀ s, (Binary.finite s c : Binary f).text = signed s t := by
  by_cases h0 : c.val = 0
  · have hvalue : f.value c = 0 := by
      rw [Format.value, h0, Format.units_of_lt f.leading_pos, Nat.cast_zero, zero_div]
    rw [hvalue]
    refine ⟨0, "0", .zero, .zero, fun s => ?_⟩
    simp only [text, write, if_pos h0, signed]
  · obtain ⟨m, k, hsix, hm, -, hr⟩ := exists_sixDigits (Format.units_pos h0)
    refine ⟨_, _, .digits hr, .digits (by omega), fun s => ?_⟩
    simp only [text, write, if_neg h0, hsix, signed]

-- 999999.5 is half a unit from an odd number, and the carry takes it into the exponent form
example : (Binary.finite false ⟨0x412e847f00000000, by decide⟩ : Double).text = "1e+06" := by
  decide +kernel

namespace FiniteNumber

theorem exists_format (x : FiniteNumber) : ∃ q t, RoundsTo 6 x.magnitude q ∧ Shown q t ∧
    x.value.format = .ok (signed x.negative t) := by
  cases x with
  | double s c =>
    obtain ⟨q, t, hq, ht, htext⟩ := Binary.exists_shown c
    exact ⟨q, t, hq, ht, congrArg Except.ok (htext s)⟩
  | single s c =>
    obtain ⟨q, t, hq, ht, htext⟩ := Binary.exists_shown c
    exact ⟨q, t, hq, ht, congrArg Except.ok (htext s)⟩

theorem format_eq_iff (x y : FiniteNumber) : x.value.format = y.value.format ↔
    x.negative = y.negative ∧ ∃ q, RoundsTo 6 x.magnitude q ∧ RoundsTo 6 y.magnitude q := by
  obtain ⟨q, t, hq, ht, hx⟩ := x.exists_format
  obtain ⟨r, u, hr, hu, hy⟩ := y.exists_format
  rw [hx, hy, Except.ok.injEq, ht.signed_inj hu, and_congr_right_iff]
  intro _
  constructor
  · rintro rfl
    exact ⟨q, hq, ht.value_unique hu ▸ hr⟩
  · rintro ⟨p, hp, hp'⟩
    exact ht.text_unique hu ((hq.unique hp).trans (hp'.unique hr))

/-- **Numbers are said to six significant digits.**  Every finite number is rendered, with a minus
sign just if its sign bit is set, as a text without needless zeros that denotes its exact value
rounded to six digits; the exponent form is used just if the first digit of the rounded value stands
beyond the fourth place behind the point or the sixth before it.  Two numbers are rendered alike just
if they agree in their signs and rounded values, so the width of a number does not show. -/
theorem format_six_digits :
    (∀ x : FiniteNumber, ∃ q t, x.value.format = .ok (if x.negative then "-" ++ t else t) ∧
      RoundsTo 6 x.magnitude q ∧ (Written.Plain t q ∨ Written.Scientific t q) ∧
      (Written.Scientific t q ↔
        q ≠ 0 ∧ ∃ e : ℤ, (10 : ℚ) ^ e ≤ q ∧ q < 10 ^ (e + 1) ∧ (e < -4 ∨ 6 ≤ e)) ∧
      (x.magnitude = 0 → t = "0")) ∧
    (∀ x y : FiniteNumber, x.value.format = y.value.format ↔
      x.negative = y.negative ∧ ∃ q, RoundsTo 6 x.magnitude q ∧ RoundsTo 6 y.magnitude q) ∧
    ∀ x y : FiniteNumber, x.negative = y.negative → x.magnitude = y.magnitude →
      x.value.format = y.value.format := by
  refine ⟨fun x => ?_, format_eq_iff, fun x y hs hm => ?_⟩
  · obtain ⟨q, t, hq, ht, hx⟩ := x.exists_format
    refine ⟨q, t, hx, hq, ht.plain_or_scientific, ht.scientific_iff, fun h0 => ?_⟩
    rw [h0] at hq
    exact ht.text_unique .zero (hq.unique .zero)
  · obtain ⟨q, -, hq, -⟩ := x.exists_format
    exact (format_eq_iff x y).mpr ⟨hs, q, hq, hm ▸ hq⟩

/-- The single next to minus a tenth, and the double of the same value. -/
theorem format_six_digits_tenth :
    let x : FiniteNumber := .single true ⟨0x3dcccccd, by decide⟩
    let y : FiniteNumber := .double true ⟨0x3fb99999a0000000, by decide⟩
    x.negative = y.negative ∧ x.magnitude = y.magnitude ∧ x.value.format = y.value.format := by
  intro x y
  have hm : x.magnitude = y.magnitude := by decide +kernel
  exact ⟨rfl, hm, format_six_digits.2.2 x y rfl hm⟩

end FiniteNumber

end Colloquy
