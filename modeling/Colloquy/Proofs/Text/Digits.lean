import Colloquy.Text.Digits
import Mathlib.Data.List.Induction
import Mathlib.Data.Nat.Digits.Lemmas

/-!
# Digits and what they denote

`placesIn b k n` is `n` modulo `b ^ k`, written with all its `k` digits, most significant first.  In
the base ten, `ofPlaces` reads such a list back, and `width n` is just the number of places that `n`
needs: then the places of `n` are its digits without leading zeros, `Nat.digits 10 n` from the other
end.
-/

namespace Colloquy.Text

theorem digit_toNat {d : ℕ} (h : d < 10) : (digit d).toNat = 48 + d := by
  rw [digit, if_pos h, Nat.toUInt8, UInt8.toNat_ofNat']
  omega

/-! ### Places -/

@[simp] theorem length_placesIn (b k n : ℕ) : (placesIn b k n).length = k := by
  induction k generalizing n with
  | zero => rfl
  | succ k ih => rw [placesIn, List.length_append, ih]; rfl

theorem placesIn_succ' (b k n : ℕ) : placesIn b (k + 1) n = n / b ^ k % b :: placesIn b k n := by
  induction k generalizing n with
  | zero => simp [placesIn]
  | succ k ih =>
    rw [placesIn, ih, List.cons_append, Nat.div_div_eq_div_mul, ← pow_succ']
    rfl

theorem lt_of_mem_placesIn {b : ℕ} (hb : 0 < b) {k n d : ℕ} (h : d ∈ placesIn b k n) : d < b := by
  induction k generalizing n with
  | zero => simp [placesIn] at h
  | succ k ih =>
    rw [placesIn, List.mem_append, List.mem_singleton] at h
    rcases h with h | rfl
    · exact ih h
    · exact Nat.mod_lt n hb

/-! ### Reading digits -/

theorem ofPlaces_concat (ds : List ℕ) (d : ℕ) : ofPlaces (ds ++ [d]) = 10 * ofPlaces ds + d := by
  simp [ofPlaces]

theorem ofPlaces_append (ds es : List ℕ) :
    ofPlaces (ds ++ es) = ofPlaces ds * 10 ^ es.length + ofPlaces es := by
  induction es using List.reverseRecOn with
  | nil => simp [ofPlaces]
  | append_singleton es e ih =>
    rw [← List.append_assoc, ofPlaces_concat, ih, ofPlaces_concat, List.length_append,
      List.length_singleton, pow_succ]
    ring

@[simp] theorem ofPlaces_replicate_zero (k : ℕ) : ofPlaces (List.replicate k 0) = 0 := by
  induction k with
  | zero => rfl
  | succ k ih => rw [List.replicate_succ', ofPlaces_concat, ih]

theorem ofPlaces_lt {ds : List ℕ} (h : ∀ d ∈ ds, d < 10) : ofPlaces ds < 10 ^ ds.length := by
  induction ds using List.reverseRecOn with
  | nil => exact Nat.one_pos
  | append_singleton ds d ih =>
    obtain ⟨hds, hd⟩ := List.forall_mem_append.mp h
    have hlt := ih hds
    have hd := hd d (List.mem_singleton_self d)
    rw [ofPlaces_concat, List.length_append, List.length_singleton, pow_succ]
    omega

theorem le_ofPlaces_cons {d : ℕ} (h : d ≠ 0) (ds : List ℕ) :
    10 ^ ds.length ≤ ofPlaces (d :: ds) := by
  rw [← List.singleton_append, ofPlaces_append]
  have hd : ofPlaces [d] = d := by simp [ofPlaces]
  rw [hd]
  exact (Nat.le_mul_of_pos_left _ (Nat.pos_of_ne_zero h)).trans (Nat.le_add_right _ _)

theorem ofPlaces_places (k n : ℕ) : ofPlaces (places k n) = n % 10 ^ k := by
  induction k generalizing n with
  | zero => simp [places, placesIn, ofPlaces, Nat.mod_one]
  | succ k ih =>
    rw [places, placesIn, ofPlaces_concat, ← places, ih, pow_succ', Nat.mod_mul, Nat.add_comm]

/-! ### As many digits as needed -/

theorem widthWithin_eq {fuel n : ℕ} (h : n < 2 ^ fuel) :
    widthWithin fuel n = (Nat.digits 10 n).length := by
  induction fuel generalizing n with
  | zero =>
    obtain rfl : n = 0 := by omega
    rfl
  | succ fuel ih =>
    rw [widthWithin]
    split_ifs with hn
    · rw [hn, Nat.digits_zero]; rfl
    · rw [Nat.digits_def' (by omega) (by omega), List.length_cons, ih (by rw [pow_succ] at h; omega)]

theorem width_eq (n : ℕ) : width n = (Nat.digits 10 n).length :=
  widthWithin_eq Nat.lt_log2_self

theorem places_length_digits (n : ℕ) :
    places (Nat.digits 10 n).length n = (Nat.digits 10 n).reverse := by
  induction n using Nat.strong_induction_on with
  | _ n ih =>
    rcases Nat.eq_zero_or_pos n with rfl | hn
    · simp [places, placesIn]
    · rw [Nat.digits_def' (by omega) hn, List.length_cons, places, placesIn, ← places,
        ih (n / 10) (by omega), List.reverse_cons]

theorem places_width (n : ℕ) : places (width n) n = (Nat.digits 10 n).reverse := by
  rw [width_eq, places_length_digits]

theorem width_le_iff {n k : ℕ} : width n ≤ k ↔ n < 10 ^ k := by
  rw [width_eq]
  exact Nat.digits_length_le_iff (by decide) n

theorem ofPlaces_places_of_le {n k : ℕ} (h : width n ≤ k) : ofPlaces (places k n) = n := by
  rw [ofPlaces_places, Nat.mod_eq_of_lt (width_le_iff.mp h)]

theorem lt_width_iff {n k : ℕ} : k < width n ↔ 10 ^ k ≤ n := by
  rw [width_eq]
  exact Nat.lt_digits_length_iff (by decide) n

end Colloquy.Text
