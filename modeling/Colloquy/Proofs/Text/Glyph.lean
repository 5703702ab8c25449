import Colloquy.Proofs.Text.Digits
import Colloquy.Text.Blank

/-!
# Texts and their glyphs

A character is written as a first byte, which bears a mark that tells the length of the sequence,
and continuation bytes with six bits each: its number to the base of sixty-four (`Layout`,
`utf8EncodeChar_of_layout`).  Reading undoes writing, and what is read is what was written; so the
glyphs of a text, put together, are the text (`ofGlyphs_glyphs`), and a character in front of a text
is its first glyph, whatever follows (`glyphs_char_append`).
-/

namespace Colloquy.Text

/-! ### Sequences -/

/-- **The sequences of UTF-8** by their length: the number of bytes after the first one, the byte
that marks the first one, the bound of what the first byte adds to the mark, and the least character
with such a sequence. -/
inductive Layout : (n mark bound least : ℕ) → Prop
  | one : Layout 0 0 0x80 0
  | two : Layout 1 0xC0 0x20 0x80
  | three : Layout 2 0xE0 0x10 0x800
  | four : Layout 3 0xF0 8 0x10000

theorem leading?_of_layout {n mark bound least : ℕ} (h : Layout n mark bound least) {a : UInt8}
    (hle : mark ≤ a.toNat) (hlt : a.toNat < mark + bound) (t : Text) :
    leading? a t =
      ((payload? n (a.toNat - mark) t).bind (character? least)).map (·, n) := by
  unfold leading?
  simp only [UInt8.lt_iff_toNat_lt, UInt8.reduceToNat]
  cases h <;> grind

theorem layout_of_leading? {a : UInt8} {t : Text} {p : Char × ℕ} (h : leading? a t = some p) :
    ∃ n mark bound least, Layout n mark bound least ∧ mark ≤ a.toNat ∧ a.toNat < mark + bound := by
  unfold leading? at h
  simp only [UInt8.lt_iff_toNat_lt, UInt8.reduceToNat] at h
  split_ifs at h
  · exact ⟨_, _, _, _, .one, by omega, by omega⟩
  · exact ⟨_, _, _, _, .two, by omega, by omega⟩
  · exact ⟨_, _, _, _, .three, by omega, by omega⟩
  · exact ⟨_, _, _, _, .four, by omega, by omega⟩

/-- The byte that continues a sequence with the digit `d` to the base of sixty-four. -/
def continuation (d : ℕ) : UInt8 := UInt8.ofNat (d + 0x80)

theorem toNat_continuation {d : ℕ} (h : d < 64) : (continuation d).toNat = d + 0x80 := by
  rw [continuation, UInt8.toNat_ofNat']
  omega

theorem payload?_continuation {n acc d : ℕ} (h : d < 64) (t : Text) :
    payload? (n + 1) acc (continuation d :: t) = payload? n (64 * acc + d) t := by
  have hd := toNat_continuation h
  rw [payload?, if_pos, hd, Nat.add_sub_cancel]
  rw [UInt8.le_iff_toNat_le, UInt8.lt_iff_toNat_lt, hd]
  simp only [UInt8.reduceToNat]
  omega

theorem exists_of_payload?_succ {n acc m : ℕ} {t : Text} (h : payload? (n + 1) acc t = some m) :
    ∃ d r, d < 64 ∧ t = continuation d :: r ∧ payload? n (64 * acc + d) r = some m := by
  cases t with
  | nil => cases h
  | cons b r =>
    rw [payload?] at h
    split_ifs at h with hb
    rw [UInt8.le_iff_toNat_le, UInt8.lt_iff_toNat_lt] at hb
    simp only [UInt8.reduceToNat] at hb
    have he : b = continuation (b.toNat - 0x80) := by
      rw [← UInt8.toNat_inj, toNat_continuation (by omega), Nat.sub_add_cancel hb.1]
    exact ⟨b.toNat - 0x80, r, by omega, congrArg (· :: r) he, h⟩

theorem character?_eq_some {least m : ℕ} {c : Char} :
    character? least m = some c ↔ least ≤ m ∧ c.toNat = m := by
  unfold character?
  constructor
  · intro h
    split_ifs at h with hm
    obtain rfl := Option.some.inj h
    refine ⟨hm.1, ?_⟩
    rw [Char.ofNat, dif_pos hm.2]
    rfl
  · rintro ⟨hle, rfl⟩
    rw [if_pos ⟨hle, c.valid⟩, Char.ofNat_toNat]


theorem toNat_lt (c : Char) : c.toNat < 0x110000 := by
  have h : c.toNat.isValidChar := c.valid
  unfold Nat.isValidChar at h
  omega

/-- **A character is written** by the first layout that has room for it. -/
theorem utf8EncodeChar_of_layout {n mark bound least : ℕ} (h : Layout n mark bound least)
    {c : Char} (hle : least ≤ c.toNat) (hlt : c.toNat < bound * 64 ^ n) :
    String.utf8EncodeChar c = UInt8.ofNat (mark + c.toNat / 64 ^ n) ::
      (placesIn 64 n c.toNat).map continuation := by
  have hc := toNat_lt c
  have hval : c.val.toNat = c.toNat := rfl
  unfold String.utf8EncodeChar
  rw [hval]
  have hdiv : c.toNat / 64 / 64 = c.toNat / 4096 := by omega
  cases h
  · rw [if_pos (by omega)]
    simp [placesIn]
  · rw [if_neg (by omega), if_pos (by omega), Nat.mod_eq_of_lt (by omega), Nat.add_comm _ 192]
    rfl
  · rw [if_neg (by omega), if_neg (by omega), if_pos (by omega), Nat.mod_eq_of_lt (by omega),
      Nat.add_comm _ 224]
    rfl
  · rw [if_neg (by omega), if_neg (by omega), if_neg (by omega), Nat.mod_eq_of_lt (by omega),
      Nat.add_comm _ 240, ← hdiv]
    rfl

theorem exists_layout (c : Char) : ∃ n mark bound least, Layout n mark bound least ∧
    least ≤ c.toNat ∧ c.toNat < bound * 64 ^ n := by
  have hc := toNat_lt c
  rcases Nat.lt_or_ge c.toNat 0x80 with h1 | h1
  · exact ⟨_, _, _, _, .one, by omega, by omega⟩
  rcases Nat.lt_or_ge c.toNat 0x800 with h2 | h2
  · exact ⟨_, _, _, _, .two, by omega, by omega⟩
  rcases Nat.lt_or_ge c.toNat 0x10000 with h3 | h3
  · exact ⟨_, _, _, _, .three, by omega, by omega⟩
  · exact ⟨_, _, _, _, .four, by omega, by omega⟩

theorem Layout.le_byte {n mark bound least : ℕ} (h : Layout n mark bound least) :
    mark + bound ≤ 256 := by
  cases h <;> decide

theorem payload?_placesIn (k m acc : ℕ) (t : Text) :
    payload? k acc ((placesIn 64 k m).map continuation ++ t) = some (acc * 64 ^ k + m % 64 ^ k) := by
  induction k generalizing acc with
  | zero => simp [payload?, Nat.mod_one]
  | succ k ih =>
    rw [placesIn_succ', List.map_cons, List.cons_append,
      payload?_continuation (Nat.mod_lt _ (by decide)), ih, Nat.mod_pow_succ]
    congr 1
    ring

theorem leading?_utf8EncodeChar (c : Char) (t : Text) : ∃ a u,
    String.utf8EncodeChar c = a :: u ∧ leading? a (u ++ t) = some (c, u.length) := by
  obtain ⟨n, mark, bound, least, h, hle, hlt⟩ := exists_layout c
  have hq : c.toNat / 64 ^ n < bound := Nat.div_lt_of_lt_mul (by rwa [Nat.mul_comm])
  have ha : (UInt8.ofNat (mark + c.toNat / 64 ^ n)).toNat = mark + c.toNat / 64 ^ n := by
    rw [UInt8.toNat_ofNat']
    exact Nat.mod_eq_of_lt ((Nat.add_lt_add_left hq mark).trans_le h.le_byte)
  refine ⟨_, _, utf8EncodeChar_of_layout h hle hlt, ?_⟩
  rw [leading?_of_layout h (ha.ge.trans' (Nat.le_add_right _ _))
    (ha.trans_lt (Nat.add_lt_add_left hq mark)), ha,
    Nat.add_sub_cancel_left, payload?_placesIn,
    Nat.mul_comm, Nat.div_add_mod, Option.bind_some, character?_eq_some.mpr ⟨hle, rfl⟩,
    Option.map_some, List.length_map, length_placesIn]

theorem exists_of_payload? {n acc m : ℕ} {t : Text} (h : payload? n acc t = some m) :
    m / 64 ^ n = acc ∧ ∃ r, t = (placesIn 64 n m).map continuation ++ r := by
  induction n generalizing acc t with
  | zero =>
    obtain rfl : acc = m := by simpa [payload?] using h
    exact ⟨by simp, t, by simp [placesIn]⟩
  | succ n ih =>
    obtain ⟨d, r, hd, rfl, hr⟩ := exists_of_payload?_succ h
    obtain ⟨hm, r, rfl⟩ := ih hr
    refine ⟨by rw [pow_succ, ← Nat.div_div_eq_div_mul, hm]; omega, r, ?_⟩
    rw [placesIn_succ', hm, Nat.mul_add_mod, Nat.mod_eq_of_lt hd]
    rfl

/-- **A character that is read** stands there as it is written. -/
theorem eq_utf8EncodeChar_of_leading? {a : UInt8} {t : Text} {c : Char} {n : ℕ}
    (h : leading? a t = some (c, n)) :
    ∃ u r, t = u ++ r ∧ u.length = n ∧ String.utf8EncodeChar c = a :: u := by
  obtain ⟨k, mark, bound, least, hl, hle, hlt⟩ := layout_of_leading? h
  rw [leading?_of_layout hl hle hlt] at h
  obtain ⟨d, hd, he⟩ := Option.map_eq_some_iff.mp h
  obtain ⟨m, hm, hc⟩ := Option.bind_eq_some_iff.mp hd
  obtain ⟨rfl, rfl⟩ := Prod.mk.inj he
  obtain ⟨hleast, rfl⟩ := character?_eq_some.mp hc
  obtain ⟨hq, r, rfl⟩ := exists_of_payload? hm
  refine ⟨_, r, rfl, by rw [List.length_map, length_placesIn], ?_⟩
  have hlt : d.toNat < bound * 64 ^ k := by
    rw [← Nat.div_lt_iff_lt_mul (Nat.pow_pos (by decide)), hq]
    omega
  rw [utf8EncodeChar_of_layout hl hleast hlt, hq, Nat.add_sub_cancel' hle, UInt8.ofNat_toNat]

/-! ### Glyphs -/

theorem glyphsAfter_eq (n : ℕ) (t : Text) : glyphsAfter n t = glyphs (t.drop n) := by
  induction t generalizing n with
  | nil => simp [glyphs, glyphsAfter]
  | cons b t ih =>
    cases n with
    | zero => rfl
    | succ n => rw [glyphsAfter, ih, List.drop_succ_cons]

theorem glyphs_cons_of_some {a : UInt8} {t : Text} {c : Char} {n : ℕ}
    (h : leading? a t = some (c, n)) : glyphs (a :: t) = .char c :: glyphs (t.drop n) := by
  rw [glyphs, glyphsAfter]
  simp only [h, glyphsAfter_eq]

theorem glyphs_cons_of_none {a : UInt8} {t : Text} (h : leading? a t = none) :
    glyphs (a :: t) = .stray a :: glyphs t := by
  rw [glyphs, glyphsAfter]
  simp only [h]
  rfl

theorem glyphs_char_append (c : Char) (t : Text) :
    glyphs (Glyph.bytes (.char c) ++ t) = .char c :: glyphs t := by
  obtain ⟨a, u, hc, hu⟩ := leading?_utf8EncodeChar c t
  rw [Glyph.bytes, hc, List.cons_append, glyphs_cons_of_some hu, List.drop_left]

/-- **The glyphs of a text, put together, are the text.** -/
theorem ofGlyphs_glyphs (t : Text) : ofGlyphs (glyphs t) = t := by
  induction hn : t.length using Nat.strong_induction_on generalizing t with
  | _ n ih =>
    cases t with
    | nil => rfl
    | cons a t =>
      cases h : leading? a t with
      | none =>
        rw [glyphs_cons_of_none h, ofGlyphs, List.flatMap_cons]
        exact congrArg (a :: ·) (ih _ (by simp at hn; omega) t rfl)
      | some p =>
        obtain ⟨c, k⟩ := p
        obtain ⟨u, r, rfl, rfl, hc⟩ := eq_utf8EncodeChar_of_leading? h
        rw [glyphs_cons_of_some h, List.drop_left, ofGlyphs, List.flatMap_cons, Glyph.bytes, hc]
        exact congrArg (a :: u ++ ·) (ih _ (by simp at hn; omega) r rfl)

end Colloquy.Text
