import Colloquy.Json.Reader
import Colloquy.Proofs.Number.Closeness
import Colloquy.Proofs.Number.Numeral

/-!
# Reading what is written

The reader takes the text of a decimal for a number (`numeric_text`) and the words for truth values
for what they are, whatever follows them (`Reads`); hence it reads an array whose items are written
with commas between them and white space around them (`Listed.read?`).

Main statement: what is written for zero or for a number of the normal range is read as a double,
and the same is written for that double (`reads_text`).
-/

namespace Colloquy

namespace Json

/-! ### The form of a number -/

theorem isDigit_digit {d : ℕ} (h : d < 10) : isDigit (Text.digit d) = true := by
  revert d
  decide

theorem isNumeric_of_isDigit {b : UInt8} (h : isDigit b = true) : isNumeric b = true := by
  rw [isDigit] at h
  rw [isNumeric, h]
  rfl

theorem isDigit_of_mem_ofDigits {ds : List ℕ} (h : ∀ d ∈ ds, d < 10) {b : UInt8}
    (hb : b ∈ Text.ofDigits ds) : isDigit b = true := by
  obtain ⟨d, hd, rfl⟩ := List.mem_map.mp hb
  exact isDigit_digit (h d hd)

/-- **A text that the reader takes for the digits of a number.** -/
structure Numeric (t : Text) : Prop where
  head : ∃ b r, t = b :: r ∧ isDigit b = true
  starts : startsWell t = true
  points : pointsWell t = true
  bytes : ∀ b ∈ t, isNumeric b = true

/-- What may follow the whole part of a number. -/
structure Continues (t : Text) : Prop where
  stops : ∀ b ∈ t.head?, isDigit b = false
  points : pointsWell t = true
  bytes : ∀ b ∈ t, isNumeric b = true

theorem continues_nil : Continues [] := ⟨by simp, rfl, by simp⟩

theorem pointsWell_append {u : Text} (h : 46 ∉ u) (t : Text) :
    pointsWell (u ++ t) = pointsWell t := by
  have hdrop : (u ++ t).dropWhile (· != 46) = t.dropWhile (· != 46) := by
    refine List.dropWhile_append_of_pos fun b hb => ?_
    rw [bne_iff_ne]
    rintro rfl
    exact h hb
  rw [pointsWell, hdrop, pointsWell]

theorem pointsWell_of_not_mem {t : Text} (h : 46 ∉ t) : pointsWell t = true := by
  rw [← List.append_nil t, pointsWell_append h]
  rfl

theorem not_mem_ofDigits {ds : List ℕ} (h : ∀ d ∈ ds, d < 10) : 46 ∉ Text.ofDigits ds :=
  fun hm => Bool.noConfusion (isDigit_of_mem_ofDigits h hm : isDigit 46 = true)

theorem continues_exponent {m : UInt8} {sign : Text} {ds : List ℕ} (hm : m = 101 ∨ m = 69)
    (hsign : sign = [] ∨ sign = [43] ∨ sign = [45]) (hds : ∀ d ∈ ds, d < 10) :
    Continues (m :: (sign ++ Text.ofDigits ds)) := by
  refine ⟨?_, pointsWell_of_not_mem ?_, ?_⟩
  · intro b hb
    obtain rfl : m = b := by simpa using hb
    rcases hm with rfl | rfl <;> rfl
  · intro hmem
    rcases List.mem_cons.mp hmem with rfl | hmem
    · rcases hm with h | h <;> cases h
    rcases List.mem_append.mp hmem with hmem | hmem
    · rcases hsign with rfl | rfl | rfl <;> cases hmem <;> contradiction
    · exact not_mem_ofDigits hds hmem
  · intro b hb
    rcases List.mem_cons.mp hb with rfl | hb
    · rcases hm with rfl | rfl <;> rfl
    rcases List.mem_append.mp hb with hb | hb
    · rcases hsign with rfl | rfl | rfl
      · cases hb
      · rw [List.mem_singleton.mp hb]; rfl
      · rw [List.mem_singleton.mp hb]; rfl
    · exact isNumeric_of_isDigit (isDigit_of_mem_ofDigits hds hb)

theorem continues_exponentText (e : ℤ) : Continues (Decimal.exponentText e) := by
  have hten : ∀ d ∈ Text.places (max 2 (Text.width e.natAbs)) e.natAbs, d < 10 :=
    fun d hd => Text.lt_of_mem_placesIn (by decide) hd
  rw [Decimal.exponentText]
  split_ifs
  · exact continues_exponent (Or.inl rfl) (Or.inr (Or.inr rfl)) hten
  · exact continues_exponent (Or.inl rfl) (Or.inr (Or.inl rfl)) hten

theorem continues_point {d : ℕ} {ds : List ℕ} (h : ∀ x ∈ d :: ds, x < 10) {t : Text}
    (ht : Continues t) : Continues (46 :: (Text.ofDigits (d :: ds) ++ t)) := by
  refine ⟨?_, ?_, ?_⟩
  · intro b hb
    obtain rfl : 46 = b := by simpa using hb
    decide
  · have hdrop : (46 :: (Text.ofDigits (d :: ds) ++ t)).dropWhile (· != 46) =
        46 :: (Text.ofDigits (d :: ds) ++ t) := rfl
    rw [pointsWell, hdrop]
    exact isDigit_digit (h d (.head _))
  · intro b hb
    rcases List.mem_cons.mp hb with rfl | hb
    · decide
    rcases List.mem_append.mp hb with hb | hb
    · exact isNumeric_of_isDigit (isDigit_of_mem_ofDigits h hb)
    · exact ht.bytes b hb

theorem startsWell_ofDigits {d : ℕ} {ds : List ℕ} (h : ∀ x ∈ d :: ds, x < 10)
    (hlead : d ≠ 0 ∨ ds = []) {t : Text} (ht : Continues t) :
    startsWell (Text.ofDigits (d :: ds) ++ t) = true := by
  have hd := isDigit_digit (h d (.head _))
  change startsWell (Text.digit d :: (Text.ofDigits ds ++ t)) = true
  unfold startsWell
  split
  · next he => rw [(List.cons.inj he).1] at hd; cases hd
  · next he => rw [(List.cons.inj he).1] at hd; cases hd
  · next b r he =>
    obtain ⟨h0, hr⟩ := List.cons.inj he
    rcases hlead with hlead | rfl
    · have hn := Text.digit_toNat (h d (.head _))
      rw [h0] at hn
      exact absurd (by simpa using hn) hlead
    · have hb := ht.stops b (by rw [show t = b :: r from hr]; rfl)
      rw [hb, Bool.not_false]
  · rfl

theorem numeric_ofDigits {d : ℕ} {ds : List ℕ} (h : ∀ x ∈ d :: ds, x < 10)
    (hlead : d ≠ 0 ∨ ds = []) {t : Text} (ht : Continues t) :
    Numeric (Text.ofDigits (d :: ds) ++ t) := by
  refine ⟨⟨_, _, rfl, isDigit_digit (h d (.head _))⟩, startsWell_ofDigits h hlead ht, ?_, ?_⟩
  · rw [pointsWell_append (not_mem_ofDigits h)]
    exact ht.points
  · intro b hb
    rcases List.mem_append.mp hb with hb | hb
    · exact isNumeric_of_isDigit (isDigit_of_mem_ofDigits h hb)
    · exact ht.bytes b hb

/-- Digits with a point are a number, unless a zero stands before another digit of the whole
part. -/
theorem numeric_pointAfter {d : ℕ} {ds : List ℕ} (h : ∀ x ∈ d :: ds, x < 10) {n : ℕ} (hn : 0 < n)
    (hlead : d ≠ 0 ∨ n = 1) {t : Text} (ht : Continues t) :
    Numeric (Decimal.pointAfter n (d :: ds) ++ t) := by
  obtain ⟨n, rfl⟩ : ∃ k, n = k + 1 := ⟨n - 1, by omega⟩
  rw [Decimal.pointAfter]
  split_ifs with hlen
  · have hnil : d ≠ 0 ∨ ds ++ List.replicate (n + 1 - (d :: ds).length) 0 = [] := by
      refine hlead.imp_right fun h1 => ?_
      have : ds = [] := List.eq_nil_of_length_eq_zero (by simp only [List.length_cons] at hlen; omega)
      simp [this, h1]
    refine numeric_ofDigits ?_ hnil ht
    intro x hx
    rw [← List.cons_append] at hx
    rcases List.mem_append.mp hx with hx | hx
    · exact h x hx
    · rw [List.eq_of_mem_replicate hx]; decide
  · rw [List.length_cons, Nat.add_le_add_iff_right, not_le] at hlen
    obtain ⟨e, es, hes⟩ : ∃ e es, ds.drop n = e :: es :=
      List.exists_cons_of_ne_nil (by rw [Ne, List.drop_eq_nil_iff]; omega)
    have htext : Text.ofDigits ((d :: ds).take (n + 1)) ++ "." ++
        Text.ofDigits ((d :: ds).drop (n + 1)) ++ t =
        Text.ofDigits (d :: ds.take n) ++ 46 :: (Text.ofDigits (e :: es) ++ t) := by
      rw [List.take_succ_cons, List.drop_succ_cons, hes, List.append_assoc, List.append_assoc]
      rfl
    rw [htext]
    refine numeric_ofDigits ?_ ?_ (continues_point ?_ ht)
    · intro x hx
      refine h x (List.mem_cons.mpr ((List.mem_cons.mp hx).imp_right List.mem_of_mem_take))
    · refine hlead.imp_right fun h1 => ?_
      obtain rfl : n = 0 := by omega
      rfl
    · intro x hx
      rw [← hes] at hx
      exact h x (.tail _ (List.mem_of_mem_drop hx))

/-- **The text of a decimal has the form of a number.** -/
theorem numeric_text {d : Decimal} (h : d.Normal) : Numeric d.text := by
  obtain ⟨x, xs, hx, hx0⟩ := h.lead
  have hten : ∀ y ∈ x :: xs, y < 10 := hx ▸ h.lt_ten
  unfold Decimal.text
  rw [hx]
  split_ifs with h1 h2
  · exact numeric_pointAfter hten Nat.one_pos (Or.inl hx0) (continues_exponentText _)
  · obtain ⟨n, hn⟩ : ∃ n, d.exponent.natAbs = n + 1 := ⟨d.exponent.natAbs - 1, by omega⟩
    rw [hn, List.replicate_succ, List.cons_append, ← List.append_nil (Decimal.pointAfter _ _)]
    refine numeric_pointAfter ?_ Nat.one_pos (Or.inr rfl) continues_nil
    rw [← List.cons_append, ← List.replicate_succ, ← hx]
    exact h.lt_ten_padded _
  · rw [← List.append_nil (Decimal.pointAfter _ _)]
    exact numeric_pointAfter hten d.exponent.toNat.succ_pos (Or.inl hx0) continues_nil

/-! ### Numbers -/

/-- A text after which no number goes on. -/
def Ends (t : Text) : Prop := ∀ b ∈ t.head?, isNumeric b = false

theorem ends_nil : Ends [] := by simp [Ends]

theorem number?_of_bytes {t : Text} (hbytes : ∀ b ∈ t, isNumeric b = true) {s : Bool}
    (hsign : s = false → ∃ b r, t = b :: r ∧ b ≠ 45) {x : Double} (hx : numberOf? s t = some x)
    {rest : Text} (hr : Ends rest) :
    number? ((if s then 45 :: t else t) ++ rest) = some (x, rest) := by
  have htake : (t ++ rest).takeWhile isNumeric = t := by
    rw [List.takeWhile_append_of_pos hbytes, List.append_right_eq_self]
    cases rest with
    | nil => rfl
    | cons b rest => rw [List.takeWhile_cons, hr b rfl]; rfl
  have hdrop : (t ++ rest).dropWhile isNumeric = rest := by
    rw [List.dropWhile_append_of_pos hbytes]
    cases rest with
    | nil => rfl
    | cons b rest => rw [List.dropWhile_cons, hr b rfl]; rfl
  cases s with
  | true =>
    have hnumber : number? (45 :: (t ++ rest)) =
        (numberOf? true ((t ++ rest).takeWhile isNumeric)).map (·, (t ++ rest).dropWhile isNumeric) :=
      rfl
    rw [if_pos rfl, List.cons_append, hnumber, htake, hdrop, hx]
    rfl
  | false =>
    obtain ⟨b, r, rfl, hb⟩ := hsign rfl
    have hplus : (((b :: r) ++ rest).head? == some 45) = false := by
      rw [List.cons_append, List.head?_cons, beq_eq_false_iff_ne, Ne, Option.some.injEq]
      exact hb
    rw [if_neg Bool.false_ne_true, number?]
    simp only [hplus, Bool.false_eq_true, if_false]
    rw [htake, hdrop, hx]
    rfl

theorem number?_of_numeric {t : Text} (h : Numeric t) {s : Bool} {x : Double}
    (hx : numberOf? s t = some x) {rest : Text} (hr : Ends rest) :
    number? ((if s then 45 :: t else t) ++ rest) = some (x, rest) := by
  obtain ⟨b, r, ht, hb⟩ := h.head
  exact number?_of_bytes h.bytes (fun _ => ⟨b, r, ht, by rintro rfl; cases hb⟩) hx hr

theorem numberOf?_of_read? {t : Text} (h : Numeric t) {m : Numeral} (hm : Numeral.read? t = some m)
    {s : Bool} {c : Fin Format.double.ceiling}
    (hc : (Numeral.toBinary { m with negative := s } : Double) = .finite s c) :
    numberOf? s t = some (.finite s c) := by
  rw [numberOf?, if_pos (by rw [h.starts, h.points]; rfl), hm, Option.map_some, hc]

/-- **The six digits of a number of the normal range** are read as a double with these digits. -/
theorem numberOf?_sixDigits {f : Format} {c : Fin f.ceiling} (h : f.Regular c) (s : Bool) :
    ∃ c' : Fin Format.double.ceiling, numberOf? s (Binary.sixDigits c).text = some (.finite s c') ∧
      c'.val ≠ 0 ∧ Binary.sixDigits c' = Binary.sixDigits c := by
  have hnormal := Binary.normal_sixDigits (Binary.units_pos_of_regular h)
  have hexp := Binary.exponent_sixDigits_lt h
  obtain ⟨m, hm, -, hval⟩ := Numeral.read?_text hnormal (by omega)
  have hscale := Power.scale_eq m.mantissa 1 m.exponent
  rw [Nat.cast_one, div_one, hval] at hscale
  obtain ⟨c', hc, h0, hsix⟩ :=
    Binary.sixDigits_of_value h (Power.scale_snd_pos Nat.one_pos _) hscale s
  exact ⟨c', numberOf?_of_read? (numeric_text hnormal) hm hc, h0, hsix⟩

/-! ### Values -/

theorem skip_of_not_blank {b : UInt8} (h : isBlank b = false) (t : Text) :
    skip (b :: t) = b :: t := by
  rw [skip, List.dropWhile_cons, h]
  rfl

/-- **The text `t` is read as `j`, whatever follows it** that is not part of a number. -/
structure Reads (t : Text) (j : Json) : Prop where
  head : ∃ b r, t = b :: r ∧ isBlank b = false ∧ b ≠ 93
  value (fuel depth : ℕ) {rest : Text} (h : Ends rest) :
    value? (fuel + 1) depth (t ++ rest) = some (j, rest)

theorem dropStart?_append (w rest : Text) : Text.dropStart? w (w ++ rest) = some rest := by
  rw [Text.dropStart?, if_pos (by simp), List.drop_left]

theorem reads_bool (b : Bool) : Reads (Text.ofBool b) (bool b) := by
  cases b with
  | true =>
    refine ⟨⟨116, _, rfl, by decide, by decide⟩, fun fuel depth rest _ => ?_⟩
    change value? (fuel + 1) depth (116 :: (Text.ofString "rue" ++ rest)) = _
    simp [value?, skip_of_not_blank, isBlank, isDigit, dropStart?_append]
  | false =>
    refine ⟨⟨102, _, rfl, by decide, by decide⟩, fun fuel depth rest _ => ?_⟩
    change value? (fuel + 1) depth (102 :: (Text.ofString "alse" ++ rest)) = _
    simp [value?, skip_of_not_blank, isBlank, isDigit, dropStart?_append]

theorem isBlank_of_isDigit {b : UInt8} (h : isDigit b = true) : isBlank b = false := by
  rw [← Bool.not_eq_true]
  intro hb
  rw [isBlank] at hb
  simp only [Bool.or_eq_true, beq_iff_eq] at hb
  rcases hb with ((rfl | rfl) | rfl) | rfl <;> cases h

theorem value?_number {b : UInt8} (h : b = 45 ∨ isDigit b = true) (r : Text) (fuel depth : ℕ) :
    value? (fuel + 1) depth (b :: r) = (number? (b :: r)).map fun p => (number p.1, p.2) := by
  have hblank : isBlank b = false := by
    rcases h with rfl | h
    · rfl
    · exact isBlank_of_isDigit h
  have hquote : b ≠ 34 := by
    rintro rfl
    rcases h with h | h <;> cases h
  rw [value?, skip_of_not_blank hblank]
  simp only [if_neg hquote, if_pos h]

theorem reads_number {t : Text} (h : Numeric t) {s : Bool} {x : Double}
    (hx : numberOf? s t = some x) : Reads (if s then 45 :: t else t) (number x) := by
  obtain ⟨b, r, hb, hfirst, hblank, hclose⟩ : ∃ b r, (if s then 45 :: t else t) = b :: r ∧
      (b = 45 ∨ isDigit b = true) ∧ isBlank b = false ∧ b ≠ 93 := by
    cases s with
    | true => exact ⟨45, t, rfl, Or.inl rfl, rfl, by decide⟩
    | false =>
      obtain ⟨b, r, rfl, hb⟩ := h.head
      exact ⟨b, r, rfl, Or.inr hb, isBlank_of_isDigit hb, by rintro rfl; cases hb⟩
  refine ⟨⟨b, r, hb, hblank, hclose⟩, fun fuel depth rest hrest => ?_⟩
  have hnumber := number?_of_numeric h hx hrest
  rw [hb, List.cons_append] at hnumber ⊢
  rw [value?_number hfirst, hnumber]
  rfl

/-- **What is written for zero or for a number of the normal range is read as a double** for which
the same is written. -/
theorem reads_text {f : Format} {c : Fin f.ceiling} (h : c.val = 0 ∨ f.Regular c) (s : Bool) :
    ∃ c' : Fin Format.double.ceiling, Reads (Binary.finite s c).text (number (.finite s c')) ∧
      (Binary.finite s c').text = (Binary.finite s c).text := by
  have htext {g : Format} (k : Fin g.ceiling) : (Binary.finite s k).text =
      if s then 45 :: (if k.val = 0 then Text.ofString "0" else (Binary.sixDigits k).text)
      else (if k.val = 0 then Text.ofString "0" else (Binary.sixDigits k).text) := by
    cases s <;> rfl
  rw [htext c]
  by_cases h0 : c.val = 0
  · have hzero : Numeric (Text.ofString "0") :=
      numeric_ofDigits (d := 0) (by simp) (Or.inr rfl) continues_nil
    have hread : numberOf? s (Text.ofString "0") = some (.finite s ⟨0, by decide⟩) :=
      numberOf?_of_read? hzero (m := ⟨false, 0, 0⟩) rfl (by cases s <;> decide +kernel)
    refine ⟨⟨0, by decide⟩, ?_, ?_⟩
    · rw [if_pos h0]
      exact reads_number hzero hread
    · rw [htext, if_pos h0, if_pos rfl]
  · have hregular := h.resolve_left h0
    obtain ⟨c', hread, hc', hsix⟩ := numberOf?_sixDigits hregular s
    refine ⟨c', ?_, ?_⟩
    · rw [if_neg h0]
      exact reads_number (numeric_text (Binary.normal_sixDigits (Format.units_pos h0))) hread
    · rw [htext, if_neg h0, if_neg hc', hsix]

/-! ### Arrays -/

/-- **White space** of any length. -/
def Blanks (t : Text) : Prop := ∀ b ∈ t, isBlank b = true

theorem blanks_nil : Blanks [] := by simp [Blanks]

section Blanks
variable {ws : Text} (hws : Blanks ws)
include hws

theorem skip_append (t : Text) : skip (ws ++ t) = skip t :=
  List.dropWhile_append_of_pos hws

theorem value?_append (fuel depth : ℕ) (t : Text) :
    value? fuel depth (ws ++ t) = value? fuel depth t := by
  cases fuel with
  | zero => rfl
  | succ fuel => rw [value?, value?, skip_append hws]

theorem Ends.append {t : Text} (ht : Ends t) : Ends (ws ++ t) := by
  cases ws with
  | nil => exact ht
  | cons b ws =>
    intro b' hb'
    obtain rfl : b = b' := by simpa using hb'
    have hb := hws b (.head _)
    rw [isBlank] at hb
    simp only [Bool.or_eq_true, beq_iff_eq] at hb
    rcases hb with ((rfl | rfl) | rfl) | rfl <;> rfl

end Blanks

theorem ends_cons {b : UInt8} (hb : isNumeric b = false) (t : Text) : Ends (b :: t) := by
  intro b' hb'
  obtain rfl : b = b' := by simpa using hb'
  exact hb

/-- **The items of an array as they are written**, one at least: white space around each of them,
and a comma between neighbours. -/
inductive Listed : Text → List Json → Prop
  | last {ws t vs : Text} {j : Json} (hws : Blanks ws) (ht : Reads t j) (hvs : Blanks vs) :
      Listed (ws ++ (t ++ vs)) [j]
  | more {ws t vs u : Text} {j : Json} {js : List Json} (hws : Blanks ws) (ht : Reads t j)
      (hvs : Blanks vs) (hu : Listed u js) : Listed (ws ++ (t ++ (vs ++ 44 :: u))) (j :: js)

section Listed
variable {u : Text} {js : List Json} (h : Listed u js)
include h

/-- The items up to the closing bracket; each of them takes a unit of fuel. -/
theorem Listed.items? (fuel depth : ℕ) (rest : Text) :
    Json.items? (fuel + js.length + 1) depth (u ++ 93 :: rest) = some (js, rest) := by
  induction h with
  | @last ws t vs j hws ht hvs =>
    have hvalue := ht.value fuel depth ((ends_cons (b := 93) rfl rest).append hvs)
    rw [List.append_assoc, List.append_assoc, List.length_singleton, Json.items?, value?_append hws,
      hvalue]
    simp only [skip_append hvs, skip_of_not_blank (show isBlank 93 = false from rfl)]
    rfl
  | @more ws t vs u j js hws ht hvs hu ih =>
    have hvalue := ht.value (fuel + js.length) depth
      ((ends_cons (b := 44) rfl (u ++ 93 :: rest)).append hvs)
    rw [List.append_assoc, List.append_assoc, List.append_assoc, List.cons_append, List.length_cons,
      ← Nat.add_assoc, Json.items?, value?_append hws, hvalue]
    simp only [skip_append hvs, skip_of_not_blank (show isBlank 44 = false from rfl), if_true]
    rw [ih]
    rfl

theorem Listed.head?_skip (rest : Text) : (skip (u ++ rest)).head? ≠ some 93 := by
  obtain ⟨ws, b, r, hws, hb, hclose, rfl⟩ : ∃ ws b r, Blanks ws ∧ isBlank b = false ∧ b ≠ 93 ∧
      u = ws ++ b :: r := by
    cases h with
    | last hws ht hvs | more hws ht hvs hu =>
      obtain ⟨b, r, rfl, hb, hclose⟩ := ht.head
      exact ⟨_, b, _, hws, hb, hclose, rfl⟩
  rw [List.append_assoc, skip_append hws, List.cons_append, skip_of_not_blank hb, List.head?_cons, Ne,
    Option.some.injEq]
  exact hclose

theorem Listed.length_le : js.length ≤ u.length := by
  induction h with
  | last hws ht hvs =>
    obtain ⟨b, r, rfl, -⟩ := ht.head
    simp only [List.length_append, List.length_cons, List.length_nil]
    omega
  | more hws ht hvs hu ih =>
    simp only [List.length_append, List.length_cons]
    omega

/-- **An array is read with its items**, if each of them is read. -/
theorem Listed.read? : Json.read? (91 :: (u ++ [93])) = some (array js) := by
  have hlen := h.length_le
  obtain ⟨n, hn⟩ : ∃ n, 2 * (91 :: (u ++ [93])).length + 2 = n + js.length + 1 + 1 := by
    refine ⟨2 * u.length + 4 - js.length, ?_⟩
    simp only [List.length_cons, List.length_append, List.length_nil]
    omega
  rw [Json.read?, hn, maxDepth, value?, skip_of_not_blank rfl]
  simp only [show (91 : UInt8) ≠ 34 by decide,
    show ¬ ((91 : UInt8) = 45 ∨ isDigit 91 = true) by decide,
    show (91 : UInt8) ≠ 110 by decide, show (91 : UInt8) ≠ 116 by decide,
    show (91 : UInt8) ≠ 102 by decide, if_false, if_true]
  rw [if_neg (h.head?_skip _), h.items?]
  rfl

end Listed

theorem join_cons_cons (sep t u : Text) (ts : List Text) :
    Text.join sep (t :: u :: ts) = t ++ (sep ++ Text.join sep (u :: ts)) := by
  rw [Text.join, List.intercalate_cons_cons, List.append_assoc]
  rfl

theorem listed_join {ts : List Text} {js : List Json} (h : List.Forall₂ Reads ts js)
    (hne : ts ≠ []) {ws : Text} (hws : Blanks ws) : Listed (ws ++ Text.join ", " ts) js := by
  have hblank : Blanks [32] := by simp [Blanks, isBlank]
  induction h generalizing ws with
  | nil => exact absurd rfl hne
  | @cons t j ts js ht hts ih =>
    cases hts with
    | nil =>
      rw [Text.join, List.intercalate_singleton, ← List.append_nil t]
      exact .last hws ht blanks_nil
    | @cons u k us ks hu hus =>
      rw [join_cons_cons]
      exact .more hws ht blanks_nil (ih (by simp) hblank)

theorem read?_array {ts : List Text} {js : List Json} (h : List.Forall₂ Reads ts js) :
    read? (91 :: (Text.join ", " ts ++ [93])) = some (array js) := by
  by_cases hne : ts = []
  · subst hne
    cases h
    rfl
  · have hlisted : Listed ([] ++ Text.join ", " ts) js := listed_join h hne blanks_nil
    exact hlisted.read?

theorem Reads.read? {t : Text} {j : Json} (h : Reads t j) : read? t = some j := by
  have hvalue := h.value (2 * t.length + 1) maxDepth ends_nil
  rw [List.append_nil] at hvalue
  rw [Json.read?, hvalue]
  rfl

end Json

end Colloquy
