import Colloquy.Proofs.Json.Numerals
import Colloquy.Proofs.Json.Strings

/-!
# The scalars of the reader

The words, numbers and strings that the reader takes (`Scalar`), and what may follow them at the end
of a text (`Trailing`).  A text that opens neither an array nor an object is read just if it is such a
scalar, with white space before it (`exists_scalar`, `exists_read?_of_scalar`).
-/

namespace Colloquy

namespace Json

open Grammar

/-! ### Scalars -/

/-- **The scalars that the reader takes.** -/
inductive Scalar : Text → Prop
  | null : Scalar (Text.ofString "null")
  | bool (b : Bool) : Scalar (Text.ofBool b)
  | number (s : Bool) {u : Text} (hu : Unsigned u) (hfits : Fits u) :
      Scalar (if s then 45 :: u else u)
  | plus {u : Text} (hu : Plus u) (hfits : Fits u) : Scalar (45 :: u)
  | string {u : Text} (hu : Quoted false u) : Scalar (34 :: (u ++ [34]))

theorem Plus.head {b : UInt8} {t : Text} (h : Plus (b :: t)) : b = 43 := by
  generalize hu : b :: t = u at h
  cases h
  exact (List.cons.inj hu).1

theorem scalar_of_number? {b : UInt8} {r rest : Text} {x : Double} (hb : b = 45 ∨ isDigit b = true)
    (h : number? (b :: r) = some (x, rest)) : ∃ v, Scalar v ∧ b :: r = v ++ rest := by
  by_cases hminus : b = 45
  · subst hminus
    have hnumber : number? (45 :: r) =
        (numberOf? true (r.takeWhile isNumeric)).map (·, r.dropWhile isNumeric) := rfl
    rw [hnumber] at h
    obtain ⟨y, hy, hrest⟩ := Option.map_eq_some_iff.mp h
    obtain ⟨-, rfl⟩ := Prod.mk.inj hrest
    have hsplit : 45 :: r = 45 :: r.takeWhile isNumeric ++ r.dropWhile isNumeric := by
      rw [List.cons_append, List.takeWhile_append_dropWhile]
    obtain ⟨hu | hu, hfits⟩ := (exists_numberOf?_iff true _).mp ⟨y, hy⟩
    · exact ⟨_, .number true hu hfits, hsplit⟩
    · exact ⟨_, .plus hu hfits, hsplit⟩
  · have hdigit := hb.resolve_left hminus
    have hnumber : number? (b :: r) = (numberOf? false ((b :: r).takeWhile isNumeric)).map
        (·, (b :: r).dropWhile isNumeric) := by
      rw [number?, List.head?_cons, beq_eq_false_iff_ne.mpr (by simpa using hminus)]
      rfl
    rw [hnumber] at h
    obtain ⟨y, hy, hrest⟩ := Option.map_eq_some_iff.mp h
    obtain ⟨-, rfl⟩ := Prod.mk.inj hrest
    obtain ⟨hu | hu, hfits⟩ := (exists_numberOf?_iff false _).mp ⟨y, hy⟩
    · exact ⟨_, .number false hu hfits, List.takeWhile_append_dropWhile.symm⟩
    · -- a digit is no plus sign
      rw [List.takeWhile_cons_of_pos (isNumeric_of_isDigit hdigit)] at hu
      rw [hu.head] at hdigit
      cases hdigit

theorem eq_append_of_dropStart? {w t rest : Text} {i j : Json}
    (h : (Text.dropStart? w t).map (i, ·) = some (j, rest)) : t = w ++ rest ∧ i = j := by
  obtain ⟨r, hr, he⟩ := Option.map_eq_some_iff.mp h
  obtain ⟨rfl, rfl⟩ := Prod.mk.inj he
  rw [Text.dropStart?] at hr
  split_ifs at hr with hw
  obtain ⟨u, rfl⟩ := List.isPrefixOf_iff_prefix.mp hw
  rw [List.drop_left] at hr
  exact ⟨by rw [Option.some.inj hr], rfl⟩

theorem scalar_of_value?_cons {fuel depth : ℕ} {b : UInt8} {r rest : Text} {j : Json}
    (hblank : isBlank b = false) (hopen : ¬ (b = 91 ∨ b = 123))
    (h : value? (fuel + 1) depth (b :: r) = some (j, rest)) :
    ∃ v, Scalar v ∧ b :: r = v ++ rest ∧ ∀ w, j = string w → w.length < v.length := by
  rw [not_or] at hopen
  rw [value?, skip_of_not_blank hblank] at h
  simp only [if_neg hopen.1, if_neg hopen.2] at h
  split_ifs at h with hquote hnumber hnull htrue hfalse
  · obtain ⟨⟨w, t⟩, hw, he⟩ := Option.map_eq_some_iff.mp h
    dsimp only at he
    obtain ⟨rfl, rfl⟩ := Prod.mk.inj he
    obtain ⟨u, hu, rfl, hle⟩ := quoted_of_string? hw
    refine ⟨_, .string hu, ?_, fun v hv => ?_⟩
    · rw [hquote, List.cons_append, List.append_assoc]
      rfl
    · obtain rfl := string.inj hv
      rw [List.length_cons, List.length_append]
      omega
  · obtain ⟨⟨x, t⟩, hx, he⟩ := Option.map_eq_some_iff.mp h
    obtain ⟨rfl, rfl⟩ := Prod.mk.inj he
    obtain ⟨v, hv, hsplit⟩ := scalar_of_number? hnumber hx
    exact ⟨v, hv, hsplit, by simp⟩
  · obtain ⟨rfl, rfl⟩ := eq_append_of_dropStart? h
    exact ⟨_, .null, by rw [hnull]; rfl, by simp⟩
  · obtain ⟨rfl, rfl⟩ := eq_append_of_dropStart? h
    exact ⟨_, .bool true, by rw [htrue]; rfl, by simp⟩
  · obtain ⟨rfl, rfl⟩ := eq_append_of_dropStart? h
    exact ⟨_, .bool false, by rw [hfalse]; rfl, by simp⟩

theorem exists_blanks (t : Text) : ∃ ws, Blanks ws ∧ t = ws ++ skip t :=
  ⟨t.takeWhile isBlank, fun _ hb => List.mem_takeWhile_imp hb,
    List.takeWhile_append_dropWhile.symm⟩

theorem exists_value? {v : Text} (h : Scalar v) (fuel depth : ℕ) {rest : Text} (hrest : Ends rest) :
    ∃ j, value? (fuel + 1) depth (v ++ rest) = some (j, rest) := by
  cases h with
  | null =>
    refine ⟨.null, ?_⟩
    change value? (fuel + 1) depth (110 :: (Text.ofString "ull" ++ rest)) = _
    simp [value?, skip_of_not_blank, isBlank, isDigit, dropStart?_append]
  | bool b => exact ⟨_, (reads_bool b).value fuel depth hrest⟩
  | number s hu hfits =>
    obtain ⟨x, hx⟩ := (exists_numberOf?_iff s _).mpr ⟨Or.inl hu, hfits⟩
    obtain ⟨hds, hlead, hf, he⟩ := hu
    have hnumeric := numeric_ofDigits hds hlead (hf.continues he)
    exact ⟨_, (reads_number hnumeric hx).value fuel depth hrest⟩
  | plus hu hfits =>
    obtain ⟨x, hx⟩ := (exists_numberOf?_iff true _).mpr ⟨Or.inr hu, hfits⟩
    have hnumber := number?_of_bytes (isNumeric_of_form (Or.inr hu)) (by simp) hx hrest
    rw [if_pos rfl] at hnumber
    rw [List.cons_append, value?_number (Or.inl rfl), ← List.cons_append, hnumber]
    exact ⟨_, rfl⟩
  | @string u hu =>
    obtain ⟨w, hw⟩ := exists_string? hu rest
    refine ⟨.string w, ?_⟩
    rw [List.cons_append, List.append_assoc, value?, skip_of_not_blank rfl]
    simp only [if_true]
    rw [List.singleton_append, hw]
    rfl

/-- **What may follow a value** at the end of a text: white space, and perhaps a NUL byte with
anything behind it. -/
inductive Trailing : Text → Prop
  | blanks {ws : Text} (hws : Blanks ws) : Trailing ws
  | nul {ws : Text} (hws : Blanks ws) (rest : Text) : Trailing (ws ++ 0 :: rest)

section Trailing
variable {r : Text}

theorem trailing_iff : Trailing r ↔ skip r = [] ∨ ∃ u, skip r = 0 :: u := by
  constructor
  · rintro (hws | ⟨hws, rest⟩)
    · exact Or.inl (List.dropWhile_eq_nil_iff.mpr hws)
    · exact Or.inr ⟨rest, by rw [skip_append hws, skip_of_not_blank rfl]⟩
  · obtain ⟨ws, hws, hr⟩ := exists_blanks r
    rintro (h | ⟨u, h⟩)
    · rw [hr, h, List.append_nil]
      exact .blanks hws
    · rw [hr, h]
      exact .nul hws u

theorem Trailing.ends (h : Trailing r) : Ends r := by
  cases h with
  | blanks hws =>
    rw [← List.append_nil r]
    exact ends_nil.append hws
  | nul hws rest => exact (ends_cons rfl rest).append hws

end Trailing

theorem read?_eq_some_iff {t : Text} {j : Json} : read? t = some j ↔
    ∃ r, value? (2 * t.length + 2) maxDepth t = some (j, r) ∧ Trailing r := by
  rw [read?]
  cases value? (2 * t.length + 2) maxDepth t with
  | none => simp
  | some p =>
    obtain ⟨i, r⟩ := p
    constructor
    · intro h
      dsimp only at h
      split at h
      · next hskip =>
        obtain rfl := Option.some.inj h
        exact ⟨r, rfl, trailing_iff.mpr (Or.inl hskip)⟩
      · next b u hskip =>
        split_ifs at h with hb
        obtain rfl := Option.some.inj h
        exact ⟨r, rfl, trailing_iff.mpr (Or.inr ⟨u, hb ▸ hskip⟩)⟩
    · rintro ⟨r', he, hr⟩
      obtain ⟨rfl, rfl⟩ := Prod.mk.inj (Option.some.inj he)
      rcases trailing_iff.mp hr with hskip | ⟨u, hskip⟩
      · simp only [hskip]
      · simp only [hskip, if_true]

/-- A text that starts neither an array nor an object, after white space. -/
def Shut (t : Text) : Prop := ∀ b ∈ (skip t).head?, ¬ (b = 91 ∨ b = 123)

/-- **A text that is read, and is no array or object, is one of a scalar.**  If it denotes a string,
then this is shorter. -/
theorem exists_scalar {t : Text} (hshut : Shut t) {j : Json} (h : read? t = some j) :
    ∃ ws v r, Blanks ws ∧ Scalar v ∧ Trailing r ∧ t = ws ++ (v ++ r) ∧
      ∀ w, j = string w → w.length < t.length := by
  obtain ⟨r, hvalue, hr⟩ := read?_eq_some_iff.mp h
  obtain ⟨ws, hws, ht⟩ := exists_blanks t
  have hfirst := List.head?_dropWhile_not isBlank t
  cases hskip : skip t with
  | nil =>
    rw [value?, hskip] at hvalue
    cases hvalue
  | cons b u =>
    rw [← skip, hskip] at hfirst
    rw [hskip] at ht
    nth_rewrite 2 [ht] at hvalue
    rw [value?_append hws] at hvalue
    obtain ⟨v, hv, hsplit, hshort⟩ :=
      scalar_of_value?_cons hfirst (hshut b (by rw [hskip]; rfl)) hvalue
    refine ⟨ws, v, r, hws, hv, hr, by rw [ht, hsplit], fun w hw => ?_⟩
    have := hshort w hw
    rw [ht, hsplit, List.length_append, List.length_append]
    omega

/-- **The texts of scalars are read.** -/
theorem exists_read?_of_scalar {ws v r : Text} (hws : Blanks ws) (hv : Scalar v) (hr : Trailing r) :
    ∃ j, read? (ws ++ (v ++ r)) = some j := by
  obtain ⟨j, hj⟩ := exists_value? hv (2 * (ws ++ (v ++ r)).length + 1) maxDepth hr.ends
  exact ⟨j, read?_eq_some_iff.mpr ⟨r, by rw [value?_append hws, hj], hr⟩⟩

end Json

end Colloquy
