import Colloquy.Proofs.Json.Reading
import Colloquy.Proofs.Number.Exact
import Colloquy.Proofs.Positions

/-!
# Positions outside a vector, as errors report them

An error about a position carries the position, the integer to which it is rounded, and the length
of the vector.  The integer is given and shown if it is one of sixty-four bits; otherwise zero is
given in its place, and none is shown (`Faithful`).  One position falls between: `-2 ^ 63` is an
integer of sixty-four bits, but its size is not below the bound, so that it is given as zero.  All
other positions are reported faithfully.

* `message_outOfBounds_shown`: an integer is shown if the position is rounded to it.
* `Binary.not_mem_exactText`: the text of a number has no bracket in it.
-/

namespace Colloquy

/-! ### Numbers in messages -/

namespace Decimal

open Json (isNumeric)

theorem isNumeric_of_mem_pointAfter {ds : List ℕ} (h : ∀ d ∈ ds, d < 10) (n : ℕ) {b : UInt8}
    (hb : b ∈ pointAfter n ds) : isNumeric b = true := by
  have hdigits {es : List ℕ} (hes : ∀ d ∈ es, d < 10) (hb : b ∈ Text.ofDigits es) :
      isNumeric b = true := Json.isNumeric_of_isDigit (Json.isDigit_of_mem_ofDigits hes hb)
  unfold pointAfter at hb
  split_ifs at hb
  · refine hdigits (fun d hd => ?_) hb
    rcases List.mem_append.mp hd with hd | hd
    · exact h d hd
    · rw [List.eq_of_mem_replicate hd]
      decide
  · rcases List.mem_append.mp hb with hb | hb
    · rcases List.mem_append.mp hb with hb | hb
      · exact hdigits (fun d hd => h d (List.mem_of_mem_take hd)) hb
      · obtain rfl : b = 46 := List.mem_singleton.mp hb
        decide
    · exact hdigits (fun d hd => h d (List.mem_of_mem_drop hd)) hb

theorem isNumeric_of_mem_text {d : Decimal} (h : ∀ x ∈ d.digits, x < 10) {b : UInt8}
    (hb : b ∈ d.text) : isNumeric b = true := by
  unfold text at hb
  split_ifs at hb
  · rcases List.mem_append.mp hb with hb | hb
    · exact isNumeric_of_mem_pointAfter h 1 hb
    · exact (Json.continues_exponentText _).bytes b hb
  · refine isNumeric_of_mem_pointAfter (fun x hx => ?_) 1 hb
    rcases List.mem_append.mp hx with hx | hx
    · rw [List.eq_of_mem_replicate hx]
      decide
    · exact h x hx
  · exact isNumeric_of_mem_pointAfter h _ hb

theorem lt_ten_of_mem_ofScaled {m : ℕ} {k : ℤ} {x : ℕ} (hx : x ∈ (ofScaled m k).digits) :
    x < 10 := by
  rcases Nat.eq_zero_or_pos m with rfl | hm
  · simp [ofScaled, trimZeros, Text.width, Text.widthWithin, Text.places, Text.placesIn] at hx
  · exact (normal_ofScaled hm k).lt_ten x hx

theorem exists_of_readingBack? {f : Format} {code n : ℕ} {d : Decimal}
    (h : readingBack? f code n = some d) : ∃ m k, d = ofScaled m k := by
  unfold readingBack? at h
  extract_lets num den k q below chosen other at h
  split_ifs at h
  · exact ⟨_, _, (Option.some.inj h).symm⟩
  · exact ⟨_, _, (Option.some.inj h).symm⟩

end Decimal

namespace Binary

variable {f : Format}

theorem exists_shortest (c : Fin f.ceiling) : ∃ m k, shortest c = Decimal.ofScaled m k := by
  unfold shortest
  cases h : (List.range 17).findSome? fun n => Decimal.readingBack? f c (n + 1) with
  | none => exact ⟨_, _, rfl⟩
  | some d =>
    obtain ⟨n, -, hn⟩ := List.exists_of_findSome?_eq_some h
    exact Decimal.exists_of_readingBack? hn

theorem not_mem_exactText (x : Binary f) : 40 ∉ x.exactText := by
  have hdigits (c : Fin f.ceiling) : 40 ∉ (shortest c).text := by
    intro hb
    obtain ⟨m, k, hshortest⟩ := exists_shortest c
    rw [hshortest] at hb
    have := Decimal.isNumeric_of_mem_text (fun x hx => Decimal.lt_ten_of_mem_ofScaled hx) hb
    revert this
    decide
  rcases x with _ | s | ⟨s, c⟩
  · change 40 ∉ Text.ofString "NaN"
    decide
  · change 40 ∉ if s then Text.ofString "-Inf" else Text.ofString "+Inf"
    split_ifs <;> decide
  · have hunsigned : 40 ∉ if c.val = 0 then Text.ofString "0" else (shortest c).text := by
      split_ifs
      · decide
      · exact hdigits c
    cases s with
    | false => exact hunsigned
    | true =>
      change 40 ∉ Text.ofString "-" ++ _
      rw [List.mem_append, not_or]
      exact ⟨by decide, hunsigned⟩

/-- A large integer is the only number that is rounded to it. -/
theorem round?_eq_some_iff_value? {x : Binary f} {k : ℤ} (hk : f.leading < k.natAbs) :
    x.round? = some k ↔ x.value? = some (k : ℚ) := by
  constructor
  · intro h
    rcases x with _ | _ | ⟨s, c⟩
    · cases h
    · cases h
    · have habs := natAbs_of_round? h
      simp only [round?, Option.some.injEq, Power.two_eq] at h
      have hunits := Format.units_eq_halfUp_mul (Format.dvd_units_of_lt_halfUp (habs ▸ hk))
      have hvalue : f.value c = (Rounding.halfUp (f.units c) (2 ^ f.finest) : ℕ) := by
        rw [Format.value, div_eq_iff (by positivity)]
        exact_mod_cast hunits
      rw [value?, hvalue, ← h]
      cases s <;> simp
  · intro h
    refine round?_eq_some.mpr ⟨k, h, ?_⟩
    rw [Rounding.HalfAway, sub_self, abs_zero]
    exact ⟨by norm_num, fun h0 => by norm_num at h0⟩

end Binary

namespace Text

theorem not_mem_ofInt (n : ℤ) : 40 ∉ ofInt n := by
  have hnat (m : ℕ) : 40 ∉ ofNat m :=
    fun hb => absurd (Json.isDigit_of_mem_ofDigits
      (fun d hd => lt_of_mem_placesIn (by decide) hd) hb) (by decide)
  cases n with
  | ofNat m => exact hnat m
  | negSucc m =>
    rw [ofInt, List.mem_append, not_or]
    exact ⟨by decide, hnat _⟩

end Text

/-! ### Errors about positions -/

namespace Indexing

/-- An integer of sixty-four bits. -/
def Fits (k : ℤ) : Prop := -(2 ^ 63) ≤ k ∧ k < 2 ^ 63

instance (k : ℤ) : Decidable (Fits k) := inferInstanceAs (Decidable (_ ∧ _))

/-- The part of a message that shows the integer to which the position is rounded. -/
def roundedPart (k : ℤ) : Text := " (rounded to " ++ Text.ofInt k ++ ")"

/-- The message about a position in a vector of length `n`, with `part` after the position. -/
def told (op : Text) (p : Double) (part : Text) (n : ℕ) : Text :=
  op ++ " index " ++ p.exactText ++ part ++ " with length " ++ Text.ofNat n ++ ": " ++
    "index out of bounds"

/-- **An error that reports a position faithfully**, in its fields and in its message. -/
inductive Faithful (op : Text) (p : Double) (n : ℕ) : Error → Prop
  /-- The position is rounded to an integer of sixty-four bits.  It is given, and shown. -/
  | shown {k : ℤ} (hk : p.NearestInteger k) (hfits : Fits k)
      (htext : (Error.outOfBounds op p k n).message = told op p (roundedPart k) n) :
      Faithful op p n (.outOfBounds op p k n)
  /-- There is no such integer.  Zero is given, and nothing is shown. -/
  | unshown (hk : ∀ k, p.NearestInteger k → ¬ Fits k)
      (htext : (Error.outOfBounds op p 0 n).message = told op p [] n)
      (hpart : 40 ∉ op →
        ¬ Text.ofString "(rounded to " <:+: (Error.outOfBounds op p 0 n).message) :
      Faithful op p n (.outOfBounds op p 0 n)

variable {op : Text} {p : Double} {n : ℕ}

theorem not_mem_told (h : 40 ∉ op) : 40 ∉ told op p [] n := by
  have hlen : 40 ∉ Text.ofNat n := Text.not_mem_ofInt n
  have hindex : 40 ∉ Text.ofString " index " := by decide
  have hwith : 40 ∉ Text.ofString " with length " := by decide
  have hcolon : 40 ∉ Text.ofString ": " := by decide
  have hbounds : 40 ∉ Text.ofString "index out of bounds" := by decide
  simp [told, h, hlen, hindex, hwith, hcolon, hbounds, p.not_mem_exactText]

/-- **What a message shows**: the integer that the error gives, if the position is rounded to it. -/
theorem message_outOfBounds_shown {k : ℤ} (h : p.round? = some k) :
    (Error.outOfBounds op p k n).message = told op p (roundedPart k) n := by
  have hround := Binary.roundInt_of_round? (by decide) h
  have hpart : Error.roundedText p k = roundedPart k := by
    rw [Error.roundedText, hround, if_pos h]
    rfl
  rw [Error.message, hpart]
  rfl

theorem message_outOfBounds_unshown (h : p.round? ≠ some 0) :
    (Error.outOfBounds op p 0 n).message = told op p [] n := by
  have hzero : Format.double.roundInt 0 = 0 := by
    rw [Format.roundInt, Int.sign_zero, zero_mul]
  have hpart : Error.roundedText p 0 = [] := by
    rw [Error.roundedText, hzero, if_neg h]
  rw [Error.message, hpart]
  rfl

theorem faithful_shown {k : ℤ} (h : p.round? = some k) (hfits : Fits k) :
    Faithful op p n (.outOfBounds op p k n) :=
  .shown (Binary.round?_eq_some.mp h) hfits (message_outOfBounds_shown h)

theorem faithful_unshown (h : ∀ k, p.round? = some k → ¬ Fits k) :
    Faithful op p n (.outOfBounds op p 0 n) := by
  have hzero : p.round? ≠ some 0 := fun h0 => h 0 h0 (by decide)
  have htext : (Error.outOfBounds op p 0 n).message = told op p [] n :=
    message_outOfBounds_unshown hzero
  refine .unshown (fun k hk => h k (Binary.round?_eq_some.mpr hk)) htext fun hop hpart => ?_
  rw [htext] at hpart
  exact not_mem_told hop (hpart.subset (by decide))

/-- The least integer of sixty-four bits is not reported faithfully by a zero. -/
theorem not_faithful_of_least (h : p.NearestInteger (-(2 ^ 63))) :
    ¬ Faithful op p n (.outOfBounds op p 0 n) := by
  intro hf
  cases hf with
  | shown hk => exact absurd (hk.unique h) (by decide)
  | unshown hk => exact hk _ h (by decide)

theorem resolve_of_outside {r : ℤ} (hr : p.round? = some r)
    (h : r < 0 ∨ (Format.double.roundNat n : ℤ) ≤ r) :
    resolve op p n = .error (.outOfBounds op p (reported r) n) := by
  unfold resolve
  simp only [hr]
  exact if_pos h

/-- **Positions are reported faithfully**, all but one.  An error about a position carries the
position and the length.  It gives and shows the integer to which the position is rounded if this is
one of sixty-four bits, and gives zero and shows nothing otherwise, exactly if the position is not
`-2 ^ 63`. -/
theorem resolve_faithful_iff {e : Error} (h : resolve op p n = .error e) :
    (∃ k, e = .outOfBounds op p k n) ∧
      (Faithful op p n e ↔ p.value? ≠ some (-(2 ^ 63))) := by
  have hleast : p.round? = some (-(2 ^ 63)) ↔ p.value? = some (-(2 ^ 63)) := by
    have := Binary.round?_eq_some_iff_value? (x := p) (k := -(2 ^ 63)) (by decide)
    exact_mod_cast this
  rw [Ne, ← hleast]
  rcases resolve_eq_error h with ⟨hr, rfl⟩ | ⟨r, hr, rfl⟩
  · refine ⟨⟨_, rfl⟩, iff_of_true (faithful_unshown ?_) ?_⟩
    · intro k hk
      rw [hr] at hk
      cases hk
    · rw [hr]
      exact (Option.some_ne_none _).symm
  · refine ⟨⟨_, rfl⟩, ?_⟩
    rw [hr, Option.some.injEq]
    rcases lt_or_ge r.natAbs 0x8000000000000000 with hlt | hge
    · -- the size of the integer is below the bound
      rw [reported, if_pos hlt]
      exact iff_of_true (faithful_shown hr (by unfold Fits; omega)) (by omega)
    · rw [reported, if_neg (by omega)]
      by_cases hr' : r = -(2 ^ 63)
      · -- the one integer of sixty-four bits whose size is not
        subst hr'
        exact iff_of_false (not_faithful_of_least (Binary.round?_eq_some.mp hr)) (not_not.mpr rfl)
      · refine iff_of_true (faithful_unshown fun k hk => ?_) hr'
        obtain rfl := Option.some.inj (hr.symm.trans hk)
        unfold Fits
        omega

/-- Two and a half, in a vector of three elements. -/
theorem resolve_faithful_half :
    let p : Double := .finite false ⟨0x4004000000000000, by decide⟩
    p.value? = some (5 / 2) ∧ resolve "get" p 3 = .error (.outOfBounds "get" p 3 3) ∧
      Faithful "get" p 3 (.outOfBounds "get" p 3 3) ∧
      (Error.outOfBounds "get" p 3 3).message =
        Text.ofString "get index 2.5 (rounded to 3) with length 3: index out of bounds" := by
  intro p
  have hvalue : p.value? = some (5 / 2) := by decide +kernel
  have hround : p.round? = some 3 := by decide +kernel
  have hlength : Format.double.roundNat 3 = 3 := by decide +kernel
  have hresolve : resolve "get" p 3 = .error (.outOfBounds "get" p 3 3) :=
    resolve_of_outside hround (.inr (by rw [hlength]; decide))
  refine ⟨hvalue, hresolve, (resolve_faithful_iff hresolve).2.mpr ?_, by decide +kernel⟩
  rw [hvalue]
  decide +kernel

/-- **The least integer of sixty-four bits** is given as zero, and not shown. -/
theorem resolve_unfaithful_least :
    let p : Double := .finite true ⟨0x43E0000000000000, by decide⟩
    p.value? = some (-(2 ^ 63)) ∧ p.NearestInteger (-(2 ^ 63)) ∧ Fits (-(2 ^ 63)) ∧
      resolve "get" p 1 = .error (.outOfBounds "get" p 0 1) ∧
      ¬ Faithful "get" p 1 (.outOfBounds "get" p 0 1) := by
  intro p
  have hround : p.round? = some (-(2 ^ 63)) := by decide +kernel
  have hnearest : p.NearestInteger (-(2 ^ 63)) := Binary.round?_eq_some.mp hround
  have hresolve : resolve "get" p 1 = .error (.outOfBounds "get" p 0 1) :=
    resolve_of_outside hround (.inl (by decide))
  exact ⟨by decide +kernel, hnearest, by decide, hresolve, not_faithful_of_least hnearest⟩

end Indexing

end Colloquy
