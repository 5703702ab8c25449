import Colloquy.Proofs.Json.Grammar
import Colloquy.Proofs.Number.Narrowing

/-!
# The numerals of the reader

Behind a minus sign or none, the reader takes the numerals of the grammar, and those with a plus sign
(`Plus`), in which the whole part may start with zeros or may be missing.  In either case the number
must not lie beyond the doubles (`Fits`).

* `wellFormed_iff`: what the reader checks of a numeral, and what the grammar says.
* `exists_numberOf?_iff`: the numerals that have a number.
-/

namespace Colloquy

namespace Json

open Grammar

/-- **A number behind a plus sign**, as the reader takes it: its whole part may start with zeros, and
may be missing before a fraction. -/
inductive Plus : Text → Prop
  | digits {ds : List ℕ} {f e : Text} (hds : ∀ d ∈ ds, d < 10) (hne : ds ≠ [] ∨ f ≠ [])
      (hf : Fraction f) (he : Exponent e) : Plus (43 :: (Text.ofDigits ds ++ (f ++ e)))

section Parts
variable {f e t : Text} {ds : List ℕ}

theorem Grammar.Exponent.continues (h : Exponent e) : Continues e := by
  cases h with
  | none => exact continues_nil
  | digits hm hsign _ hds => exact continues_exponent hm hsign hds

theorem Grammar.Fraction.continues (hf : Fraction f) (he : Exponent e) : Continues (f ++ e) := by
  cases hf with
  | none => exact he.continues
  | @digits ds hne hds =>
    obtain ⟨d, ds, rfl⟩ := List.exists_cons_of_ne_nil hne
    exact continues_point hds he.continues

theorem spanSign_spec (t : Text) : ∃ sign, (sign = [] ∨ sign = [43] ∨ sign = [45]) ∧
    t = sign ++ (Numeral.spanSign t).2 := by
  unfold Numeral.spanSign
  split
  · exact ⟨[45], Or.inr (Or.inr rfl), rfl⟩
  · exact ⟨[43], Or.inr (Or.inl rfl), rfl⟩
  · exact ⟨[], Or.inl rfl, rfl⟩

theorem Grammar.Exponent.exists_exponent? (h : Exponent e) : ∃ k, Numeral.exponent? e = some k := by
  cases h with
  | none => exact ⟨0, rfl⟩
  | @digits m sign ds hm hsign hne hds =>
    obtain ⟨s, hs⟩ : ∃ s, Numeral.spanSign (sign ++ Text.ofDigits ds) = (s, Text.ofDigits ds) := by
      rcases hsign with rfl | rfl | rfl
      · have hspan := Numeral.spanSign_ofDigits hds hne []
        rw [List.append_nil] at hspan
        exact ⟨false, hspan⟩
      · exact ⟨false, rfl⟩
      · exact ⟨true, rfl⟩
    have hspan : Numeral.spanDigits (Text.ofDigits ds ++ []) = (ds, []) :=
      Numeral.spanDigits_ofDigits hds (by simp [Numeral.Stops])
    rw [List.append_nil] at hspan
    have hempty : ds.isEmpty = false := by simpa using hne
    rw [Numeral.exponent?, if_pos hm]
    simp only [hs, hspan, hempty, Bool.false_eq_true, List.isEmpty_nil, not_true, or_self, if_false]
    exact ⟨_, rfl⟩

theorem exponent_of_exponent? {k : ℤ} (h : Numeral.exponent? e = some k) : Exponent e := by
  cases e with
  | nil => exact .none
  | cons m t =>
    rw [Numeral.exponent?] at h
    split_ifs at h with hm
    dsimp only at h
    split at h
    · cases h
    · next hdigits =>
      rw [not_or, not_not] at hdigits
      obtain ⟨sign, hsign, ht⟩ := spanSign_spec t
      obtain ⟨hu, hds, -⟩ := Numeral.ofDigits_spanDigits (Numeral.spanSign t).2
      have hrest : (Numeral.spanDigits (Numeral.spanSign t).2).2 = [] := by simpa using hdigits.2
      rw [hrest, List.append_nil] at hu
      rw [ht, hu]
      exact .digits hm hsign (by simpa using hdigits.1) hds

theorem exists_read? {s : Bool} (hs : Numeral.spanSign t = (s, Text.ofDigits ds ++ (f ++ e)))
    (hds : ∀ d ∈ ds, d < 10) (hne : ds ≠ [] ∨ f ≠ []) (hf : Fraction f) (he : Exponent e) :
    ∃ n, Numeral.read? t = some n := by
  obtain ⟨k, hk⟩ := he.exists_exponent?
  have hstops := Numeral.stops_of_exponent? hk
  rw [Numeral.read?, hs]
  cases hf with
  | none =>
    have hempty : ds.isEmpty = false := by simpa using hne
    have hpoint : ∀ r, e ≠ 46 :: r := by
      rintro r rfl
      rcases Numeral.exponent?_head hk 46 rfl with h | h <;> cases h
    simp only [List.nil_append, Numeral.spanDigits_ofDigits hds hstops]
    simp [hempty, hk]
  | @digits es hes hten =>
    have hempty : es.isEmpty = false := by simpa using hes
    rw [List.cons_append]
    simp only [Numeral.spanDigits_ofDigits hds (Numeral.stops_point _),
      Numeral.spanDigits_ofDigits hten hstops]
    simp [hempty, hk]

/-- The parts that a numeral is read by.  There may be a point without digits behind it. -/
theorem exists_parts {n : Numeral} (h : Numeral.read? t = some n) : ∃ ds p e,
    (Numeral.spanSign t).2 = Text.ofDigits ds ++ (p ++ e) ∧ (∀ d ∈ ds, d < 10) ∧
      (ds ≠ [] ∨ p ≠ []) ∧ (p = [] ∨ ∃ es, p = 46 :: Text.ofDigits es ∧ ∀ d ∈ es, d < 10) ∧
      Exponent e := by
  obtain ⟨hu, hds, -⟩ := Numeral.ofDigits_spanDigits (Numeral.spanSign t).2
  rw [Numeral.read?] at h
  dsimp only at h
  split at h
  · next r hr =>
    obtain ⟨hr', hes, -⟩ := Numeral.ofDigits_spanDigits r
    split at h
    · cases h
    · obtain ⟨k, hk, -⟩ := Option.map_eq_some_iff.mp h
      refine ⟨_, 46 :: Text.ofDigits (Numeral.spanDigits r).1, _, ?_, hds,
        Or.inr (List.cons_ne_nil _ _), Or.inr ⟨_, rfl, hes⟩, exponent_of_exponent? hk⟩
      rw [List.cons_append, ← hr', ← hr]
      exact hu
  · split at h
    · cases h
    · next hsome =>
      obtain ⟨k, hk, -⟩ := Option.map_eq_some_iff.mp h
      have hne : (Numeral.spanDigits (Numeral.spanSign t).2).1 ≠ [] := by simpa using hsome
      exact ⟨_, [], _, hu, hds, Or.inl hne, Or.inl rfl, exponent_of_exponent? hk⟩

theorem ne_nil_of_pointsWell {es : List ℕ} (he : Exponent e)
    (h : pointsWell (46 :: (Text.ofDigits es ++ e)) = true) : es ≠ [] := by
  rintro rfl
  have hhead : (e.head?.map isDigit).getD false = true := h
  cases e with
  | nil => cases hhead
  | cons b r =>
    rw [List.head?_cons, Option.map_some, Option.getD_some, he.continues.stops b rfl] at hhead
    cases hhead

theorem unsigned_of_startsWell (hds : ∀ d ∈ ds, d < 10) (hne : ds ≠ [] ∨ f ≠ []) (hf : Fraction f)
    (he : Exponent e) (h : startsWell (Text.ofDigits ds ++ (f ++ e)) = true) :
    Unsigned (Text.ofDigits ds ++ (f ++ e)) := by
  cases ds with
  | nil =>
    cases hf with
    | none => simp at hne
    | digits => cases h
  | cons d ds =>
    refine .digits hds ?_ hf he
    by_contra hlead
    rw [not_or, not_not] at hlead
    obtain ⟨rfl, hlead⟩ := hlead
    obtain ⟨x, xs, rfl⟩ := List.exists_cons_of_ne_nil hlead
    have hdigit : (!isDigit (Text.digit x)) = true := h
    rw [isDigit_digit (hds x (.tail _ (.head _)))] at hdigit
    cases hdigit

/-- **The numerals that the reader takes**, with a minus sign before them or none. -/
theorem wellFormed_iff (t : Text) :
    (startsWell t = true ∧ pointsWell t = true ∧ ∃ n, Numeral.read? t = some n) ↔
      Unsigned t ∨ Plus t := by
  constructor
  · rintro ⟨hstarts, hpoints, n, hn⟩
    obtain ⟨ds, p, e, hparts, hds, hne, hp, he⟩ := exists_parts hn
    obtain ⟨sign, hsign, ht⟩ := spanSign_spec t
    rw [hparts] at ht
    have hf : Fraction p := by
      rcases hp with rfl | ⟨es, rfl, hes⟩
      · exact .none
      · have hbefore : 46 ∉ sign ++ Text.ofDigits ds := by
          rw [List.mem_append, not_or]
          refine ⟨?_, not_mem_ofDigits hds⟩
          rcases hsign with rfl | rfl | rfl <;> decide
        rw [ht, ← List.append_assoc, pointsWell_append hbefore] at hpoints
        exact .digits (ne_nil_of_pointsWell he hpoints) hes
    rw [ht] at hstarts ⊢
    rcases hsign with rfl | rfl | rfl
    · exact Or.inl (unsigned_of_startsWell hds hne hf he hstarts)
    · exact Or.inr (.digits hds hne hf he)
    · cases hstarts
  · rintro (⟨hds, hlead, hf, he⟩ | @⟨ds, f, e, hds, hne, hf, he⟩)
    · have hnumeric := numeric_ofDigits hds hlead (hf.continues he)
      have hsign := Numeral.spanSign_ofDigits hds (List.cons_ne_nil _ _)
      exact ⟨hnumeric.starts, hnumeric.points,
        exists_read? (hsign _) hds (Or.inl (List.cons_ne_nil _ _)) hf he⟩
    · have hbefore : 46 ∉ 43 :: Text.ofDigits ds := by
        rw [List.mem_cons, not_or]
        exact ⟨by decide, not_mem_ofDigits hds⟩
      refine ⟨rfl, ?_, exists_read? rfl hds hne hf he⟩
      rw [← List.cons_append, pointsWell_append hbefore]
      exact (hf.continues he).points

end Parts

/-- **A numeral within the range of doubles**, by its exact value. -/
def InRange (n : Numeral) : Prop := (n.mantissa : ℚ) * 10 ^ n.exponent < 2 ^ 1024 - 2 ^ 970

theorem inRange_iff (n : Numeral) : InRange n ↔
    Format.double.nearest (Power.scale n.mantissa 1 n.exponent).1
      (Power.scale n.mantissa 1 n.exponent).2 < Format.double.ceiling := by
  rw [Format.nearest_double_lt_iff _ (Power.scale_snd_pos Nat.one_pos _), Power.scale_eq,
    Nat.cast_one, div_one, InRange]

/-- A text that spells a numeral within the range of doubles. -/
def Fits (t : Text) : Prop := ∃ n, Numeral.read? t = some n ∧ InRange n

theorem exists_numberOf?_iff (s : Bool) (t : Text) :
    (∃ x, numberOf? s t = some x) ↔ (Unsigned t ∨ Plus t) ∧ Fits t := by
  rw [← wellFormed_iff, numberOf?]
  constructor
  · rintro ⟨x, hx⟩
    split_ifs at hx with hform
    rw [Bool.and_eq_true] at hform
    cases hn : Numeral.read? t with
    | none =>
      rw [hn] at hx
      cases hx
    | some n =>
      refine ⟨⟨hform.1, hform.2, n, rfl⟩, n, hn, (inRange_iff n).mpr ?_⟩
      by_contra hlarge
      rw [hn, Option.map_some, Numeral.toBinary, Binary.ofRatio, Binary.ofCode, dif_neg hlarge] at hx
      cases hx
  · rintro ⟨⟨hstarts, hpoints, -⟩, n, hn, hrange⟩
    rw [hstarts, hpoints, hn, Option.map_some, Numeral.toBinary, Binary.ofRatio, Binary.ofCode,
      dif_pos ((inRange_iff n).mp hrange)]
    exact ⟨_, rfl⟩

theorem isNumeric_of_form {t : Text} (h : Unsigned t ∨ Plus t) : ∀ b ∈ t, isNumeric b = true := by
  rcases h with ⟨hds, hlead, hf, he⟩ | ⟨hds, hne, hf, he⟩
  · exact (numeric_ofDigits hds hlead (hf.continues he)).bytes
  · intro b hb
    rcases List.mem_cons.mp hb with rfl | hb
    · rfl
    rcases List.mem_append.mp hb with hb | hb
    · exact isNumeric_of_isDigit (isDigit_of_mem_ofDigits hds hb)
    · exact (hf.continues he).bytes b hb

theorem Grammar.Unsigned.head {u : Text} (h : Unsigned u) : ∃ b r, u = b :: r ∧ isDigit b = true := by
  obtain ⟨hds, -, -, -⟩ := h
  exact ⟨_, _, rfl, isDigit_digit (hds _ (.head _))⟩

end Json

end Colloquy
