import Colloquy.Number.Numeral
import Colloquy.Proofs.Number.Decimal

/-!
# Decimals read as numerals

The text of a decimal is a numeral, and the numeral has the value of the decimal (`read?_text`),
whether it is written positionally or with an exponent.  The three forms in which a decimal is
written are one: digits with a point among them (`Decimal.pointAfter`), and perhaps an exponent
(`read?_pointAfter`).
-/

namespace Colloquy

namespace Text

theorem digitValue?_digit {d : ℕ} (h : d < 10) : digitValue? (digit d) = some d := by
  have hn := digit_toNat h
  rw [digitValue?, if_pos, hn, Nat.add_sub_cancel_left]
  rw [UInt8.le_iff_toNat_le, UInt8.le_iff_toNat_le, hn]
  simp only [UInt8.reduceToNat]
  omega

theorem digit_of_digitValue? {b : UInt8} {d : ℕ} (h : digitValue? b = some d) :
    d < 10 ∧ digit d = b := by
  rw [digitValue?] at h
  split_ifs at h with hb
  rw [UInt8.le_iff_toNat_le, UInt8.le_iff_toNat_le] at hb
  simp only [UInt8.reduceToNat] at hb
  obtain rfl := Option.some.inj h
  have hlt : b.toNat - 48 < 10 := by omega
  refine ⟨hlt, UInt8.toNat_inj.mp ?_⟩
  rw [digit_toNat hlt]
  omega

end Text

namespace Numeral

/-- A text that does not go on with a digit. -/
def Stops (t : Text) : Prop := ∀ b ∈ t.head?, Text.digitValue? b = none

theorem spanDigits_of_stops {t : Text} (h : Stops t) : spanDigits t = ([], t) := by
  cases t with
  | nil => rfl
  | cons b t => rw [spanDigits, h b rfl]

theorem spanDigits_ofDigits {ds : List ℕ} (h : ∀ d ∈ ds, d < 10) {t : Text} (ht : Stops t) :
    spanDigits (Text.ofDigits ds ++ t) = (ds, t) := by
  induction ds with
  | nil => exact spanDigits_of_stops ht
  | cons d ds ih =>
    rw [Text.ofDigits, List.map_cons, List.cons_append, spanDigits,
      Text.digitValue?_digit (h d (.head _)), ← Text.ofDigits, ih fun d hd => h d (.tail _ hd)]

/-- **The digits that are taken off a text** and the rest of it. -/
theorem ofDigits_spanDigits (t : Text) : t = Text.ofDigits (spanDigits t).1 ++ (spanDigits t).2 ∧
    (∀ d ∈ (spanDigits t).1, d < 10) ∧ Stops (spanDigits t).2 := by
  induction t with
  | nil => exact ⟨rfl, by simp [spanDigits], by simp [Stops, spanDigits]⟩
  | cons b t ih =>
    rw [spanDigits]
    cases h : Text.digitValue? b with
    | none =>
      refine ⟨rfl, by simp, fun b' hb' => ?_⟩
      obtain rfl : b = b' := by simpa using hb'
      exact h
    | some d =>
      obtain ⟨hd, rfl⟩ := Text.digit_of_digitValue? h
      exact ⟨congrArg _ ih.1, List.forall_mem_cons.mpr ⟨hd, ih.2.1⟩, ih.2.2⟩

theorem exponentOf_eq {ds : List ℕ} (h : Text.ofPlaces ds < 10000) :
    exponentOf ds = Text.ofPlaces ds := by
  induction ds using List.reverseRecOn with
  | nil => rfl
  | append_singleton ds d ih =>
    rw [Text.ofPlaces_concat] at h ⊢
    have hlt : Text.ofPlaces ds < 10000 := by omega
    have hd : exponentOf (ds ++ [d]) =
        if exponentOf ds < 10000 then 10 * exponentOf ds + d else exponentOf ds := by
      rw [exponentOf, List.foldl_append]
      rfl
    rw [hd, ih hlt, if_pos hlt]

theorem exponent?_of_digits {s : Bool} {t : Text} {ds : List ℕ} (hne : ds ≠ [])
    (h : ∀ d ∈ ds, d < 10) (hs : spanSign t = (s, Text.ofDigits ds))
    (hlt : Text.ofPlaces ds < 10000) :
    exponent? (101 :: t) = some (if s then -(Text.ofPlaces ds : ℤ) else Text.ofPlaces ds) := by
  have hspan := spanDigits_ofDigits h (t := []) (by simp [Stops])
  rw [List.append_nil] at hspan
  have hempty : ds.isEmpty = false := by simpa using hne
  simp [exponent?, hs, hspan, hempty, exponentOf_eq hlt]

theorem exponent?_exponentText {e : ℤ} (he : e.natAbs < 10000) :
    exponent? (Decimal.exponentText e) = some e := by
  have hval : Text.ofPlaces (Text.places (max 2 (Text.width e.natAbs)) e.natAbs) = e.natAbs :=
    Text.ofPlaces_places_of_le (le_max_right _ _)
  have hten : ∀ d ∈ Text.places (max 2 (Text.width e.natAbs)) e.natAbs, d < 10 :=
    fun d hd => Text.lt_of_mem_placesIn (by decide) hd
  have hne : Text.places (max 2 (Text.width e.natAbs)) e.natAbs ≠ [] := by
    rw [← List.length_pos_iff, Text.places, Text.length_placesIn]
    omega
  rw [Decimal.exponentText]
  split_ifs with hneg
  · refine (exponent?_of_digits (s := true) hne hten rfl (hval.trans_lt he)).trans ?_
    rw [hval, if_pos rfl]
    congr 1
    omega
  · refine (exponent?_of_digits (s := false) hne hten rfl (hval.trans_lt he)).trans ?_
    rw [hval, if_neg Bool.false_ne_true]
    congr 1
    omega

/-! ### Digits with a point -/

theorem digit_ne {d : ℕ} (h : d < 10) {b : UInt8} (hb : b.toNat < 48) : Text.digit d ≠ b := by
  intro he
  have := Text.digit_toNat h
  rw [he] at this
  omega

theorem spanSign_ofDigits {ds : List ℕ} (h : ∀ d ∈ ds, d < 10) (hne : ds ≠ []) (t : Text) :
    spanSign (Text.ofDigits ds ++ t) = (false, Text.ofDigits ds ++ t) := by
  obtain ⟨d, ds, rfl⟩ := List.exists_cons_of_ne_nil hne
  have hd := h d (.head _)
  unfold spanSign
  split
  · next he => exact absurd (List.cons.inj he).1 (digit_ne hd (by decide))
  · next he => exact absurd (List.cons.inj he).1 (digit_ne hd (by decide))
  · rfl

theorem exponent?_head {t : Text} {e : ℤ} (h : exponent? t = some e) :
    ∀ b ∈ t.head?, b = 101 ∨ b = 69 := by
  intro b hb
  cases t with
  | nil => cases hb
  | cons m t =>
    obtain rfl : m = b := by simpa using hb
    rw [exponent?] at h
    split_ifs at h with hm
    exact hm

theorem stops_of_exponent? {t : Text} {e : ℤ} (h : exponent? t = some e) : Stops t := by
  intro b hb
  rcases exponent?_head h b hb with rfl | rfl <;> decide

theorem stops_point (t : Text) : Stops (46 :: t) := by
  intro b hb
  obtain rfl : 46 = b := by simpa using hb
  decide

section Read
variable {ds : List ℕ} (h : ∀ d ∈ ds, d < 10) (hne : ds ≠ []) {t : Text} {e : ℤ}
  (ht : exponent? t = some e)
include h hne ht

theorem read?_whole : read? (Text.ofDigits ds ++ t) = some ⟨false, Text.ofPlaces ds, e⟩ := by
  have hempty : ds.isEmpty = false := by simpa using hne
  have hpoint : ∀ r, t ≠ 46 :: r := by
    rintro r rfl
    rcases exponent?_head ht 46 rfl with h | h <;> cases h
  rw [read?, spanSign_ofDigits h hne]
  simp only [spanDigits_ofDigits h (stops_of_exponent? ht)]
  simp [hempty, ht]

theorem read?_point {es : List ℕ} (hes : ∀ d ∈ es, d < 10) :
    read? (Text.ofDigits ds ++ "." ++ Text.ofDigits es ++ t) =
      some ⟨false, Text.ofPlaces (ds ++ es), e - es.length⟩ := by
  have hempty : ds.isEmpty = false := by simpa using hne
  have htext : Text.ofDigits ds ++ "." ++ Text.ofDigits es ++ t =
      Text.ofDigits ds ++ 46 :: (Text.ofDigits es ++ t) := by
    rw [List.append_assoc, List.append_assoc]
    rfl
  rw [htext, read?, spanSign_ofDigits h hne]
  simp only [spanDigits_ofDigits h (stops_point _), spanDigits_ofDigits hes (stops_of_exponent? ht)]
  simp [hempty, ht]

/-- **Digits with a point after the first `n` of them** denote what they do without the point, less
the powers of ten for the digits behind it. -/
theorem read?_pointAfter {n : ℕ} (hn : 0 < n) :
    ∃ m : Numeral, read? (Decimal.pointAfter n ds ++ t) = some m ∧ m.negative = false ∧
      (m.mantissa : ℚ) * 10 ^ m.exponent = Text.ofPlaces ds * 10 ^ (e + n - ds.length) := by
  rw [Decimal.pointAfter]
  split_ifs with hlen
  · refine ⟨_, read?_whole ?_ (by simp [hne]) ht, rfl, ?_⟩
    · intro d hd
      rcases List.mem_append.mp hd with hd | hd
      · exact h d hd
      · rw [List.eq_of_mem_replicate hd]; decide
    · rw [Text.ofPlaces_append, Text.ofPlaces_replicate_zero, List.length_replicate, Nat.add_zero]
      push_cast
      rw [mul_assoc, ← zpow_natCast, ← zpow_add₀ (by norm_num)]
      congr 2
      omega
  · have htake : ds.take n ≠ [] := by simp [hne, hn.ne']
    refine ⟨_, read?_point (fun d hd => h d (List.mem_of_mem_take hd)) htake ht
      fun d hd => h d (List.mem_of_mem_drop hd), rfl, ?_⟩
    rw [List.take_append_drop, List.length_drop]
    dsimp only
    congr 2
    omega

end Read

/-! ### Decimals -/

/-- **The text of a decimal has its value.** -/
theorem read?_text {d : Decimal} (h : d.Normal) (he : d.exponent.natAbs < 10000) :
    ∃ m : Numeral, read? d.text = some m ∧ m.negative = false ∧
      (m.mantissa : ℚ) * 10 ^ m.exponent = d.value := by
  obtain ⟨x, xs, hx, -⟩ := h.lead
  have hne : d.digits ≠ [] := by rw [hx]; simp
  have hnil : exponent? [] = some 0 := rfl
  unfold Decimal.text Decimal.value
  split_ifs with h1 h2
  · obtain ⟨m, hm, hs, hv⟩ := read?_pointAfter h.lt_ten hne (exponent?_exponentText he) Nat.one_pos
    exact ⟨m, hm, hs, by exact_mod_cast hv⟩
  · obtain ⟨m, hm, hs, hv⟩ := read?_pointAfter (h.lt_ten_padded _) (by simp [hne]) hnil Nat.one_pos
    rw [List.append_nil] at hm
    refine ⟨m, hm, hs, hv.trans ?_⟩
    rw [Text.ofPlaces_append, Text.ofPlaces_replicate_zero, Nat.zero_mul, Nat.zero_add,
      List.length_append, List.length_replicate]
    congr 2
    omega
  · obtain ⟨m, hm, hs, hv⟩ := read?_pointAfter h.lt_ten hne hnil d.exponent.toNat.succ_pos
    rw [List.append_nil] at hm
    refine ⟨m, hm, hs, hv.trans ?_⟩
    congr 2
    omega

end Numeral

end Colloquy
