import Colloquy.Proofs.Text.Glyph

/-!
# UTF-8

A text is UTF-8 if it is made of the bytes of characters (`Utf8`).  Its first byte tells whether it
is a character by itself (`Utf8.exists_small`) or starts the sequence of a character, all of whose
bytes are great ones (`Utf8.exists_great`).
-/

namespace Colloquy.Text

/-- **UTF-8**: the bytes of characters. -/
def Utf8 (t : Text) : Prop := ∃ cs : List Char, t = cs.flatMap String.utf8EncodeChar

theorem utf8EncodeChar_of_lt {c : Char} (h : c.toNat < 128) :
    String.utf8EncodeChar c = [UInt8.ofNat c.toNat] := by
  have hencode := utf8EncodeChar_of_layout .one (Nat.zero_le c.toNat) (by simpa using h)
  simpa [placesIn] using hencode

theorem le_of_mem_utf8EncodeChar {c : Char} (h : 128 ≤ c.toNat) {b : UInt8}
    (hb : b ∈ String.utf8EncodeChar c) : 128 ≤ b.toNat := by
  obtain ⟨n, mark, bound, least, hlayout, hle, hlt⟩ := exists_layout c
  rw [utf8EncodeChar_of_layout hlayout hle hlt] at hb
  rcases List.mem_cons.mp hb with rfl | hb
  · have hmark : 128 ≤ mark := by
      cases hlayout
      · omega
      all_goals decide
    have hfirst : c.toNat / 64 ^ n < bound := Nat.div_lt_of_lt_mul (by rwa [Nat.mul_comm])
    have hbyte := hlayout.le_byte
    rw [UInt8.toNat_ofNat', Nat.mod_eq_of_lt (by omega)]
    exact hmark.trans (Nat.le_add_right _ _)
  · obtain ⟨d, hd, rfl⟩ := List.mem_map.mp hb
    rw [toNat_continuation (lt_of_mem_placesIn (by decide) hd)]
    omega

section Utf8
variable {b : UInt8} {t : Text} (h : Utf8 (b :: t))
include h

theorem Utf8.exists_character : ∃ c r, b :: t = String.utf8EncodeChar c ++ r ∧ Utf8 r := by
  obtain ⟨cs, hcs⟩ := h
  cases cs with
  | nil => cases hcs
  | cons c cs => exact ⟨c, _, hcs.trans List.flatMap_cons, cs, rfl⟩

theorem Utf8.exists_small (hb : b.toNat < 128) :
    Utf8 t ∧ ∃ c : Char, c.toNat = b.toNat ∧ String.utf8EncodeChar c = [b] := by
  obtain ⟨c, r, hr, hutf8⟩ := h.exists_character
  rcases Nat.lt_or_ge c.toNat 128 with hc | hc
  · have hencode := utf8EncodeChar_of_lt hc
    rw [hencode, List.singleton_append, List.cons.injEq] at hr
    obtain ⟨rfl, rfl⟩ := hr
    refine ⟨hutf8, c, ?_, hencode⟩
    rw [UInt8.toNat_ofNat', Nat.mod_eq_of_lt (by omega)]
  · obtain ⟨a, u, hau, -⟩ := leading?_utf8EncodeChar c []
    rw [hau, List.cons_append, List.cons.injEq] at hr
    have := le_of_mem_utf8EncodeChar hc (b := b) (by rw [hau, hr.1]; exact .head _)
    omega

theorem Utf8.exists_great (hb : 128 ≤ b.toNat) :
    ∃ c r, b :: t = String.utf8EncodeChar c ++ r ∧ Utf8 r ∧ 128 ≤ c.toNat := by
  obtain ⟨c, r, hr, hutf8⟩ := h.exists_character
  refine ⟨c, r, hr, hutf8, ?_⟩
  by_contra hlt
  rw [not_le] at hlt
  rw [utf8EncodeChar_of_lt hlt, List.singleton_append, List.cons.injEq] at hr
  rw [hr.1, UInt8.toNat_ofNat', Nat.mod_eq_of_lt (by omega)] at hb
  omega

end Utf8

end Colloquy.Text
