import Colloquy.Proofs.Json.Grammar
import Colloquy.Proofs.Quoting
import Colloquy.Proofs.Text.Utf8

/-!
# The strings of the reader

What the reader takes between quotes (`Quoted`) is more than what stands there by the grammar: bytes
that are no UTF-8, and control characters once an escape has come before.

* `quoted_of_string?`, `exists_string?`: what is read as a string, and what can be read so.
* `Quoted.characters`: what else of it is a string of the grammar.
-/

namespace Colloquy

namespace Json

open Grammar

/-- **What the reader takes between quotes.**  The bytes may be any at all, but control characters
only once an escape has come before. -/
inductive Quoted : (escaped : Bool) → Text → Prop
  | nil (escaped : Bool) : Quoted escaped []
  | byte {escaped : Bool} {b : UInt8} {t : Text} (hquote : b ≠ 34) (hslash : b ≠ 92)
      (hb : 32 ≤ b ∨ escaped = true) (ht : Quoted escaped t) : Quoted escaped (b :: t)
  | letter {escaped : Bool} {c : UInt8} {t : Text} (hc : IsEscape c) (ht : Quoted true t) :
      Quoted escaped (92 :: c :: t)
  | unit {escaped : Bool} {a b c d : UInt8} {t : Text} (ha : IsHex a) (hb : IsHex b) (hc : IsHex c)
      (hd : IsHex d) (ht : Quoted true t) : Quoted escaped (92 :: 117 :: a :: b :: c :: d :: t)

theorem exists_letter?_iff {c : UInt8} : (∃ b, letter? c = some b) ↔ IsEscape c := by
  unfold letter? IsEscape
  split_ifs with hsame
  · exact iff_of_true ⟨c, rfl⟩ (by tauto)
  all_goals simp_all

theorem exists_hexValue?_iff {b : UInt8} : (∃ n, hexValue? b = some n) ↔ IsHex b := by
  unfold hexValue? IsHex
  split_ifs <;> simp_all

theorem exists_unit?_iff {a b c d : UInt8} :
    (∃ u, unit? a b c d = some u) ↔ IsHex a ∧ IsHex b ∧ IsHex c ∧ IsHex d := by
  simp only [← exists_hexValue?_iff, unit?, Option.bind_eq_bind, Option.bind_eq_some_iff,
    Option.pure_def, Option.some.injEq]
  constructor
  · rintro ⟨u, k, hk, l, hl, m, hm, n, hn, -⟩
    exact ⟨⟨k, hk⟩, ⟨l, hl⟩, ⟨m, hm⟩, ⟨n, hn⟩⟩
  · rintro ⟨⟨k, hk⟩, ⟨l, hl⟩, ⟨m, hm⟩, ⟨n, hn⟩⟩
    exact ⟨_, k, hk, l, hl, m, hm, n, hn, rfl⟩

theorem prepend_eq_some {u v rest : Text} {r : Option (Text × Text)} :
    prepend u r = some (v, rest) ↔ ∃ w, r = some (w, rest) ∧ u ++ w = v := by
  cases r with
  | none => simp [prepend]
  | some p =>
    obtain ⟨w, t⟩ := p
    simp [prepend, and_comm]

theorem length_encode_le (n : ℕ) : (encode n).length ≤ 4 := by
  rw [encode, String.length_utf8EncodeChar]
  exact Char.utf8Size_le_four _

theorem length_encodePair_le (u v : ℕ) : (encodePair u v).length ≤ 8 := by
  rw [encodePair]
  split_ifs
  · exact (length_encode_le _).trans (by decide)
  · rw [List.length_append]
    exact Nat.add_le_add (length_encode_le u) (length_encode_le v)

/-- One step of the reader: the text `p` stands for the bytes `enc`, which are not more. -/
theorem quoted_step {escaped escaped' : Bool} {p enc t w rest : Text}
    (hstep : ∀ u, Quoted escaped' u → Quoted escaped (p ++ u)) (hlen : enc.length ≤ p.length)
    (ih : ∀ {w rest : Text}, string? escaped' t = some (w, rest) →
      ∃ u, Quoted escaped' u ∧ t = u ++ 34 :: rest ∧ w.length ≤ u.length)
    (h : prepend enc (string? escaped' t) = some (w, rest)) :
    ∃ u, Quoted escaped u ∧ p ++ t = u ++ 34 :: rest ∧ w.length ≤ u.length := by
  obtain ⟨v, hv, rfl⟩ := prepend_eq_some.mp h
  obtain ⟨u, hu, rfl, hle⟩ := ih hv
  refine ⟨p ++ u, hstep u hu, (List.append_assoc _ _ _).symm, ?_⟩
  rw [List.length_append, List.length_append]
  exact Nat.add_le_add hlen hle

/-- **What is read as a string** stands between quotes, and is not shorter than the string. -/
theorem quoted_of_string? {escaped : Bool} {t w rest : Text}
    (h : string? escaped t = some (w, rest)) :
    ∃ u, Quoted escaped u ∧ t = u ++ 34 :: rest ∧ w.length ≤ u.length := by
  fun_induction string? escaped t generalizing w rest with
  | case1 | case3 | case4 | case5 | case9 | case11 | case12 => cases h
  | case2 =>
    cases h
    exact ⟨[], .nil _, rfl, le_rfl⟩
  | case6 escaped h₁ h₂ h₃ h₄ u hu hs k₁ k₂ k₃ k₄ t v hv hq ih =>
    obtain ⟨ha, hb, hc, hd⟩ := exists_unit?_iff.mp ⟨u, hu⟩
    obtain ⟨ha', hb', hc', hd'⟩ := exists_unit?_iff.mp ⟨v, hv⟩
    exact quoted_step (p := [92, 117, h₁, h₂, h₃, h₄, 92, 117, k₁, k₂, k₃, k₄])
      (fun _ ht => .unit ha hb hc hd (.unit ha' hb' hc' hd' ht))
      ((length_encodePair_le u v).trans (by simp)) ih h
  | case7 escaped h₁ h₂ h₃ h₄ u hu hs t hnot hq ih =>
    obtain ⟨ha, hb, hc, hd⟩ := exists_unit?_iff.mp ⟨u, hu⟩
    exact quoted_step (p := [92, 117, h₁, h₂, h₃, h₄]) (fun _ ht => .unit ha hb hc hd ht)
      ((length_encode_le u).trans (by simp)) ih h
  | case8 escaped h₁ h₂ h₃ h₄ t u hu hs hq ih =>
    obtain ⟨ha, hb, hc, hd⟩ := exists_unit?_iff.mp ⟨u, hu⟩
    exact quoted_step (p := [92, 117, h₁, h₂, h₃, h₄]) (fun _ ht => .unit ha hb hc hd ht)
      ((length_encode_le u).trans (by simp)) ih h
  | case10 escaped c t hc b hb hq ih =>
    have hescape := exists_letter?_iff.mp ⟨b, hb⟩
    exact quoted_step (p := [92, c]) (fun _ ht => .letter hescape ht) (by simp) ih h
  | case13 escaped b t hquote hslash hb ih =>
    have hallowed : 32 ≤ b ∨ escaped = true := by
      rw [not_and_or, UInt8.not_lt, Bool.not_eq_false] at hb
      exact hb
    exact quoted_step (p := [b]) (fun _ ht => .byte hquote hslash hallowed ht) le_rfl ih h

section Units
variable {escaped : Bool} {h₁ h₂ h₃ h₄ : UInt8} {u : ℕ} (hu : unit? h₁ h₂ h₃ h₄ = some u)
include hu

/-- A unit is read by itself, unless it is half of a pair and another one follows. -/
theorem string?_lone {t : Text} (ht : isSurrogate u = true → ∀ r, t ≠ 92 :: 117 :: r) :
    string? escaped (92 :: 117 :: h₁ :: h₂ :: h₃ :: h₄ :: t) =
      prepend (encode u) (string? true t) := by
  rw [string?.eq_def]
  simp only [show (92 : UInt8) ≠ 34 by decide, hu, if_false, if_true]
  split_ifs with hs
  · split
    · exact absurd rfl (ht hs _)
    · rfl
  · rfl

/-- Half of a pair is read with the unit that follows. -/
theorem string?_pair (hs : isSurrogate u = true) {k₁ k₂ k₃ k₄ : UInt8} {v : ℕ}
    (hv : unit? k₁ k₂ k₃ k₄ = some v) (t : Text) :
    string? escaped (92 :: 117 :: h₁ :: h₂ :: h₃ :: h₄ :: 92 :: 117 :: k₁ :: k₂ :: k₃ :: k₄ :: t) =
      prepend (encodePair u v) (string? true t) := by
  rw [string?.eq_def]
  simp only [show (92 : UInt8) ≠ 34 by decide, hu, hs, hv, if_false, if_true]

end Units

/-- The closing quote is no part of an escape, so an escape that is seen there stands before it. -/
theorem opens_unit_of_append {t rest r : Text} (h : t ++ 34 :: rest = 92 :: 117 :: r) :
    ∃ r, t = 92 :: 117 :: r := by
  rcases t with _ | ⟨x, _ | ⟨y, t⟩⟩
  · simp at h
  · simp at h
  · simp only [List.cons_append, List.cons.injEq] at h
    exact ⟨t, by rw [h.1, h.2.1]⟩

/-- **What stands between quotes is read as a string**, whatever follows the closing quote. -/
theorem exists_string? {escaped : Bool} {u : Text} (h : Quoted escaped u) (rest : Text) :
    ∃ w, string? escaped (u ++ 34 :: rest) = some (w, rest) := by
  induction hn : u.length using Nat.strong_induction_on generalizing escaped u with
  | _ n ih =>
    subst hn
    cases h with
    | nil => exact ⟨[], string?_close _ rest⟩
    | @byte _ b t hquote hslash hb ht =>
      obtain ⟨w, hw⟩ := ih _ (by simp) ht rfl
      have hplain : ¬ (b < 32 ∧ escaped = false) := by
        rw [not_and_or, UInt8.not_lt, Bool.not_eq_false]
        exact hb
      rw [List.cons_append, string?_plain (not_or.mpr ⟨hquote, hslash⟩) hplain, hw]
      exact ⟨_, rfl⟩
    | @letter _ c t hc ht =>
      obtain ⟨w, hw⟩ := ih _ (by simp) ht rfl
      obtain ⟨b, hb⟩ := exists_letter?_iff.mpr hc
      rw [List.cons_append, List.cons_append, string?_letter escaped hb, hw]
      exact ⟨_, rfl⟩
    | @unit _ a b c d t ha hb hc hd ht =>
      obtain ⟨v, hv⟩ := exists_unit?_iff.mpr ⟨ha, hb, hc, hd⟩
      simp only [List.cons_append]
      by_cases hpair : isSurrogate v = true ∧ ∃ r, t = 92 :: 117 :: r
      · obtain ⟨hs, r, rfl⟩ := hpair
        cases ht with
        | byte _ hslash => exact absurd rfl hslash
        | letter hc => exact absurd hc (by unfold IsEscape; decide)
        | unit ha' hb' hc' hd' ht =>
          obtain ⟨w, hw⟩ := ih _ (by simp; omega) ht rfl
          obtain ⟨v', hv'⟩ := exists_unit?_iff.mpr ⟨ha', hb', hc', hd'⟩
          simp only [List.cons_append]
          rw [string?_pair hv hs hv', hw]
          exact ⟨_, rfl⟩
      · obtain ⟨w, hw⟩ := ih _ (by simp; omega) ht rfl
        have hlone : isSurrogate v = true → ∀ r, t ++ 34 :: rest ≠ 92 :: 117 :: r :=
          fun hs r hr => hpair ⟨hs, opens_unit_of_append hr⟩
        rw [string?_lone hv hlone, hw]
        exact ⟨_, rfl⟩

/-! ### Strings of the grammar -/

theorem character_of_small {b : UInt8} (hb : 32 ≤ b.toNat) (hquote : b ≠ 34) (hslash : b ≠ 92)
    {c : Char} (hc : c.toNat = b.toNat) : Character (String.utf8EncodeChar c) := by
  refine .plain (hc ▸ hb) ?_ ?_
  · rintro rfl
    exact hquote (UInt8.toNat_inj.mp hc.symm)
  · rintro rfl
    exact hslash (UInt8.toNat_inj.mp hc.symm)

theorem character_of_great {c : Char} (hc : 128 ≤ c.toNat) : Character (String.utf8EncodeChar c) := by
  refine .plain (by omega) ?_ ?_ <;>
  · rintro rfl
    exact absurd hc (by decide)

theorem Grammar.IsHex.lt {b : UInt8} (h : IsHex b) : b.toNat < 128 := by
  simp only [IsHex, UInt8.le_iff_toNat_le, UInt8.reduceToNat] at h
  omega

theorem Grammar.IsEscape.lt {b : UInt8} (h : IsEscape b) : b.toNat < 128 := by
  rcases h with rfl | rfl | rfl | rfl | rfl | rfl | rfl | rfl <;> decide

theorem Quoted.tail {escaped : Bool} {b : UInt8} {t : Text} (h : Quoted escaped (b :: t))
    (hslash : b ≠ 92) : Quoted escaped t := by
  cases h with
  | byte _ _ _ ht => exact ht
  | letter | unit => exact absurd rfl hslash

theorem Quoted.of_append {escaped : Bool} {p t : Text} (hp : ∀ b ∈ p, 128 ≤ b.toNat)
    (h : Quoted escaped (p ++ t)) : Quoted escaped t := by
  induction p with
  | nil => exact h
  | cons b p ih =>
    rw [List.forall_mem_cons] at hp
    exact ih hp.2 (h.tail (by rintro rfl; exact absurd hp.1 (by decide)))

/-- **A string of the reader is one of the grammar**, if it has no control characters and is
UTF-8. -/
theorem Quoted.characters {escaped : Bool} {u : Text} (h : Quoted escaped u)
    (hcontrol : ∀ b ∈ u, 32 ≤ b.toNat) (hutf8 : Text.Utf8 u) : Characters u := by
  induction hn : u.length using Nat.strong_induction_on generalizing escaped u with
  | _ n ih =>
    subst hn
    cases u with
    | nil => exact .nil
    | cons b t =>
      rcases Nat.lt_or_ge b.toNat 128 with hb | hb
      · obtain ⟨htail, c, hc, hencode⟩ := hutf8.exists_small hb
        simp only [List.forall_mem_cons] at hcontrol
        cases h with
        | byte hquote hslash _ ht =>
          have hplain := character_of_small hcontrol.1 hquote hslash hc
          rw [hencode] at hplain
          exact .cons hplain (ih _ (by simp) ht hcontrol.2 htail rfl)
        | letter hescape ht =>
          rw [List.forall_mem_cons] at hcontrol
          obtain ⟨htail, -⟩ := htail.exists_small hescape.lt
          exact .cons (.letter hescape) (ih _ (by simp) ht hcontrol.2.2 htail rfl)
        | unit h₁ h₂ h₃ h₄ ht =>
          simp only [List.forall_mem_cons] at hcontrol
          obtain ⟨htail, -⟩ := htail.exists_small (by decide)
          obtain ⟨htail, -⟩ := htail.exists_small h₁.lt
          obtain ⟨htail, -⟩ := htail.exists_small h₂.lt
          obtain ⟨htail, -⟩ := htail.exists_small h₃.lt
          obtain ⟨htail, -⟩ := htail.exists_small h₄.lt
          exact .cons (.unit h₁ h₂ h₃ h₄)
            (ih _ (by simp; omega) ht hcontrol.2.2.2.2.2.2 htail rfl)
      · obtain ⟨c, r, hr, hrest, hc⟩ := hutf8.exists_great hb
        have hlength : r.length < (b :: t).length := by
          rw [hr, List.length_append, String.length_utf8EncodeChar]
          have := c.utf8Size_pos
          omega
        rw [hr] at h hcontrol ⊢
        exact .cons (character_of_great hc)
          (ih _ hlength (h.of_append fun b => Text.le_of_mem_utf8EncodeChar hc)
            (List.forall_mem_append.mp hcontrol).2 hrest rfl)

end Json

end Colloquy
