import Colloquy.Proofs.Number.Numeral

/-!
# Decimal texts and the numbers that they denote

A decimal text has digits with a point among them (`Mantissa`), and in the scientific form an
exponent behind them.  The well-formed texts are those without needless zeros: none in front of the
whole part, none at the end of the fraction, and no point without a fraction.  A text is of one form
only and denotes one number (`Plain.not_scientific`, `Plain.unique`, `Scientific.unique`), since the
digits, the point and the mark of the exponent can be told apart.

The text of a decimal is such a text, and the form is chosen by its exponent (`plain_text`,
`scientific_text`).
-/

namespace Colloquy

namespace Written

/-! ### The grammar -/

/-- **Digits with a point among them**, without needless zeros. -/
structure Mantissa where
  whole : List ℕ
  fraction : List ℕ
  lt_ten : ∀ d ∈ whole ++ fraction, d < 10
  lead : whole = [0] ∨ ∃ d ds, whole = d :: ds ∧ d ≠ 0
  last : fraction.getLast? ≠ some 0

/-- The point and the digits behind it, or nothing if there are none. -/
def fractionText : List ℕ → Text
  | [] => []
  | d :: ds => "." ++ Text.ofDigits (d :: ds)

def Mantissa.text (m : Mantissa) : Text := Text.ofDigits m.whole ++ fractionText m.fraction

def Mantissa.value (m : Mantissa) : ℚ :=
  Text.ofPlaces (m.whole ++ m.fraction) / 10 ^ m.fraction.length

/-- **A signed exponent** of at least two digits. -/
structure Exponent where
  negative : Bool
  digits : List ℕ
  lt_ten : ∀ d ∈ digits, d < 10
  two_le : 2 ≤ digits.length

def Exponent.text (e : Exponent) : Text :=
  (if e.negative then "e-" else "e+") ++ Text.ofDigits e.digits

def Exponent.value (e : Exponent) : ℤ :=
  if e.negative then -(Text.ofPlaces e.digits : ℤ) else Text.ofPlaces e.digits

/-- **A positional text** and the number that it denotes. -/
def Plain (t : Text) (q : ℚ) : Prop := ∃ m : Mantissa, t = m.text ∧ q = m.value

/-- **A text in exponent form**, with one digit before the point, and the number that it denotes. -/
def Scientific (t : Text) (q : ℚ) : Prop :=
  ∃ (m : Mantissa) (e : Exponent) (d : ℕ), m.whole = [d] ∧ d ≠ 0 ∧ t = m.text ++ e.text ∧
    q = m.value * 10 ^ e.value

/-! ### One text, one number -/

section Unique
variable {m n : Mantissa} {t u : Text} {p q : ℚ}

/-- What may follow a mantissa: nothing, or an exponent. -/
def Follows (t : Text) : Prop := ∀ b ∈ t.head?, b = 101

theorem follows_nil : Follows [] := by simp [Follows]

theorem follows_exponent (e : Exponent) : Follows e.text := by
  intro b hb
  rw [Exponent.text] at hb
  cases hneg : e.negative <;> rw [hneg] at hb <;> exact (Option.some.inj hb).symm

theorem Follows.stops (h : Follows t) : Numeral.Stops t := by
  intro b hb
  rw [h b hb]
  decide

theorem ofDigits_append_inj {ds es : List ℕ} (hds : ∀ d ∈ ds, d < 10) (hes : ∀ d ∈ es, d < 10)
    (ht : Numeral.Stops t) (hu : Numeral.Stops u)
    (h : Text.ofDigits ds ++ t = Text.ofDigits es ++ u) : ds = es ∧ t = u := by
  have hspan := congrArg Numeral.spanDigits h
  rw [Numeral.spanDigits_ofDigits hds ht, Numeral.spanDigits_ofDigits hes hu] at hspan
  exact Prod.mk.inj hspan

theorem fractionText_append_inj {ds es : List ℕ} (hds : ∀ d ∈ ds, d < 10) (hes : ∀ d ∈ es, d < 10)
    (ht : Follows t) (hu : Follows u) (h : fractionText ds ++ t = fractionText es ++ u) :
    ds = es ∧ t = u := by
  -- a point does not begin what follows a mantissa
  have hpoint {v w : Text} (hv : Follows v) : v ≠ 46 :: w := by
    rintro rfl
    exact absurd (hv 46 rfl) (by decide)
  cases ds with
  | nil =>
    cases es with
    | nil => exact ⟨rfl, h⟩
    | cons e es => exact absurd h (hpoint ht)
  | cons d ds =>
    cases es with
    | nil => exact absurd h.symm (hpoint hu)
    | cons e es => exact ofDigits_append_inj hds hes ht.stops hu.stops (List.cons.inj h).2

theorem stops_fractionText (ds : List ℕ) (ht : Follows t) : Numeral.Stops (fractionText ds ++ t) := by
  cases ds with
  | nil => exact ht.stops
  | cons d ds => exact Numeral.stops_point _

/-- **The digits of a mantissa and what follows it can be read off.** -/
theorem Mantissa.text_append_inj (ht : Follows t) (hu : Follows u)
    (h : m.text ++ t = n.text ++ u) : m.value = n.value ∧ t = u := by
  have hten (k : Mantissa) : (∀ d ∈ k.whole, d < 10) ∧ ∀ d ∈ k.fraction, d < 10 :=
    List.forall_mem_append.mp k.lt_ten
  rw [text, text, List.append_assoc, List.append_assoc] at h
  obtain ⟨hwhole, hrest⟩ := ofDigits_append_inj (hten m).1 (hten n).1 (stops_fractionText _ ht)
    (stops_fractionText _ hu) h
  obtain ⟨hfraction, htail⟩ := fractionText_append_inj (hten m).2 (hten n).2 ht hu hrest
  exact ⟨by rw [value, value, hwhole, hfraction], htail⟩

theorem Exponent.value_eq_of_text {e e' : Exponent} (h : e.text = e'.text) : e.value = e'.value := by
  have hdigits (h : Text.ofDigits e.digits = Text.ofDigits e'.digits) : e.digits = e'.digits := by
    rw [← List.append_nil (Text.ofDigits e.digits), ← List.append_nil (Text.ofDigits e'.digits)] at h
    exact (ofDigits_append_inj e.lt_ten e'.lt_ten follows_nil.stops follows_nil.stops h).1
  rw [text, text] at h
  rw [value, value]
  cases hs : e.negative <;> cases hs' : e'.negative <;> rw [hs, hs'] at h
  · rw [hdigits (List.cons.inj (List.cons.inj h).2).2]
  · exact absurd (List.cons.inj (List.cons.inj h).2).1 (by decide)
  · exact absurd (List.cons.inj (List.cons.inj h).2).1 (by decide)
  · rw [hdigits (List.cons.inj (List.cons.inj h).2).2]

theorem Plain.unique (h : Plain t p) (h' : Plain t q) : p = q := by
  obtain ⟨m, rfl, rfl⟩ := h
  obtain ⟨n, hn, rfl⟩ := h'
  rw [← List.append_nil m.text, ← List.append_nil n.text] at hn
  exact (Mantissa.text_append_inj follows_nil follows_nil hn).1

theorem Scientific.unique (h : Scientific t p) (h' : Scientific t q) : p = q := by
  obtain ⟨m, e, -, -, -, rfl, rfl⟩ := h
  obtain ⟨n, e', -, -, -, hn, rfl⟩ := h'
  obtain ⟨hvalue, htext⟩ := Mantissa.text_append_inj (follows_exponent e) (follows_exponent e') hn
  rw [hvalue, Exponent.value_eq_of_text htext]

theorem Plain.not_scientific (h : Plain t p) : ¬ Scientific t q := by
  obtain ⟨m, rfl, rfl⟩ := h
  rintro ⟨n, e, -, -, -, hn, -⟩
  rw [← List.append_nil m.text] at hn
  have hnil := (Mantissa.text_append_inj follows_nil (follows_exponent e) hn).2
  rw [Exponent.text] at hnil
  cases hs : e.negative <;> rw [hs] at hnil <;> cases hnil

theorem Mantissa.text_append_ne (m : Mantissa) (t u : Text) : m.text ++ t ≠ 45 :: u := by
  obtain ⟨d, ds, hd⟩ : ∃ d ds, m.whole = d :: ds := by
    rcases m.lead with h | ⟨d, ds, h, -⟩
    · exact ⟨0, [], h⟩
    · exact ⟨d, ds, h⟩
  have hten : d < 10 := m.lt_ten d (by rw [hd]; exact .head _)
  intro h
  rw [text, hd] at h
  exact Numeral.digit_ne hten (by decide) (List.cons.inj h).1

end Unique

/-! ### The text of a decimal -/

/-- An integer as an exponent. -/
def Exponent.ofInt (e : ℤ) : Exponent where
  negative := e < 0
  digits := Text.places (max 2 (Text.width e.natAbs)) e.natAbs
  lt_ten _ hd := Text.lt_of_mem_placesIn (by decide) hd
  two_le := by
    rw [Text.places, Text.length_placesIn]
    exact le_max_left _ _

theorem Exponent.text_ofInt (e : ℤ) : (ofInt e).text = Decimal.exponentText e := by
  rw [text, Decimal.exponentText]
  simp only [ofInt, decide_eq_true_eq]

theorem Exponent.value_ofInt (e : ℤ) : (ofInt e).value = e := by
  have hval : Text.ofPlaces (ofInt e).digits = e.natAbs :=
    Text.ofPlaces_places_of_le (le_max_right _ _)
  rw [value, hval]
  simp only [ofInt, decide_eq_true_eq]
  split_ifs <;> omega

/-- The digits before the point are filled up with zeros, if they do not reach it. -/
theorem pointAfter_eq (n : ℕ) (ds : List ℕ) : Decimal.pointAfter n ds =
    Text.ofDigits (ds.take n ++ List.replicate (n - ds.length) 0) ++ fractionText (ds.drop n) := by
  rw [Decimal.pointAfter]
  split_ifs with hlen
  · rw [List.take_of_length_le hlen, List.drop_of_length_le hlen, fractionText, List.append_nil]
  · have hfill : n - ds.length = 0 := by omega
    cases hdrop : ds.drop n with
    | nil =>
      rw [List.drop_eq_nil_iff] at hdrop
      exact absurd hdrop hlen
    | cons e es =>
      rw [hfill, List.replicate_zero, List.append_nil, fractionText, List.append_assoc]

theorem ofPlaces_filled (n : ℕ) (ds : List ℕ) :
    (Text.ofPlaces (ds.take n ++ List.replicate (n - ds.length) 0 ++ ds.drop n) : ℚ) /
      10 ^ (ds.drop n).length = Text.ofPlaces ds * 10 ^ ((n : ℤ) - ds.length) := by
  rcases Nat.le_total ds.length n with hlen | hlen
  · rw [List.take_of_length_le hlen, List.drop_of_length_le hlen, List.append_nil,
      Text.ofPlaces_append, Text.ofPlaces_replicate_zero, List.length_replicate, List.length_nil,
      Nat.add_zero, pow_zero, div_one, ← Nat.cast_sub hlen, zpow_natCast]
    push_cast
    ring
  · rw [Nat.sub_eq_zero_of_le hlen, List.replicate_zero, List.append_nil, List.take_append_drop,
      List.length_drop, div_eq_mul_inv, ← zpow_natCast, ← zpow_neg, Nat.cast_sub hlen, neg_sub]

/-- **Digits with a point after the first `n` of them** are a mantissa, if there are no needless
zeros among them. -/
theorem exists_mantissa {n : ℕ} {ds : List ℕ} (hn : 0 < n) (hten : ∀ d ∈ ds, d < 10)
    (hlead : ∃ x xs, ds = x :: xs ∧ (x ≠ 0 ∨ n = 1)) (hlast : ds.getLast? ≠ some 0) :
    ∃ m : Mantissa, m.text = Decimal.pointAfter n ds ∧
      m.whole = ds.take n ++ List.replicate (n - ds.length) 0 ∧
      m.value = Text.ofPlaces ds * 10 ^ ((n : ℤ) - ds.length) := by
  refine ⟨⟨ds.take n ++ List.replicate (n - ds.length) 0, ds.drop n, ?_, ?_, ?_⟩,
    (pointAfter_eq n ds).symm, rfl, ?_⟩
  · simp only [List.mem_append]
    rintro d ((hd | hd) | hd)
    · exact hten d (List.mem_of_mem_take hd)
    · rw [List.eq_of_mem_replicate hd]; decide
    · exact hten d (List.mem_of_mem_drop hd)
  · obtain ⟨x, xs, rfl, hx⟩ := hlead
    obtain ⟨k, rfl⟩ : ∃ k, n = k + 1 := ⟨n - 1, by omega⟩
    rw [List.take_succ_cons, List.cons_append]
    by_cases h0 : x = 0
    · obtain rfl : k = 0 := by
        have := hx.resolve_left (not_not.mpr h0)
        omega
      left
      rw [h0, List.take_zero, List.length_cons, show 0 + 1 - (xs.length + 1) = 0 by omega]
      rfl
    · exact Or.inr ⟨x, _, rfl, h0⟩
  · rw [List.getLast?_drop]
    split_ifs
    · simp
    · exact hlast
  · exact ofPlaces_filled n ds

section Decimal
variable {d : Decimal} (h : d.Normal) (hlast : d.digits.getLast? ≠ some 0)
include h hlast

theorem scientific_text (he : d.exponent < -4 ∨ 6 ≤ d.exponent) : Scientific d.text d.value := by
  obtain ⟨x, xs, hx, h0⟩ := h.lead
  obtain ⟨m, htext, hwhole, hvalue⟩ :=
    exists_mantissa Nat.one_pos h.lt_ten ⟨x, xs, hx, Or.inl h0⟩ hlast
  refine ⟨m, .ofInt d.exponent, x, ?_, h0, ?_, ?_⟩
  · rw [hwhole, hx, List.length_cons, show 1 - (xs.length + 1) = 0 by omega]
    rfl
  · rw [Decimal.text, if_pos, htext, Exponent.text_ofInt]
    rcases he with he | he
    · exact Or.inl he
    · exact Or.inr (Int.lt_of_add_one_le he)
  · rw [hvalue, Exponent.value_ofInt, Decimal.value, mul_assoc, ← zpow_add₀ (by norm_num)]
    congr 2
    push_cast
    ring

theorem plain_text (he : ¬ (d.exponent < -4 ∨ 6 ≤ d.exponent)) : Plain d.text d.value := by
  obtain ⟨x, xs, hx, h0⟩ := h.lead
  have hrange : ¬ (d.exponent < Decimal.positional.1 ∨ Decimal.positional.2 < d.exponent) := by
    simp only [Decimal.positional]
    omega
  rw [Decimal.text, if_neg hrange]
  split_ifs with hneg
  · -- the zeros between the point and the first digit, and one before the point
    obtain ⟨z, hz⟩ : ∃ z, d.exponent.natAbs = z + 1 := ⟨d.exponent.natAbs - 1, by omega⟩
    have hend : (List.replicate d.exponent.natAbs 0 ++ d.digits).getLast? ≠ some 0 := by
      rwa [List.getLast?_append_of_ne_nil _ (by rw [hx]; exact List.cons_ne_nil _ _)]
    obtain ⟨m, htext, -, hvalue⟩ := exists_mantissa Nat.one_pos (h.lt_ten_padded _)
      ⟨0, List.replicate z 0 ++ d.digits, by rw [hz]; rfl, Or.inr rfl⟩ hend
    refine ⟨m, htext.symm, ?_⟩
    rw [hvalue, Text.ofPlaces_append, Text.ofPlaces_replicate_zero, Nat.zero_mul, Nat.zero_add,
      List.length_append, List.length_replicate, Decimal.value]
    congr 2
    omega
  · obtain ⟨m, htext, -, hvalue⟩ :=
      exists_mantissa d.exponent.toNat.succ_pos h.lt_ten ⟨x, xs, hx, Or.inl h0⟩ hlast
    refine ⟨m, htext.symm, ?_⟩
    rw [hvalue, Decimal.value]
    congr 2
    omega

end Decimal

end Written

end Colloquy
