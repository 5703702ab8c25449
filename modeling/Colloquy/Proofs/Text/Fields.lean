import Colloquy.Proofs.Text.Glyph

/-!
# Fields

White space divides a text into fields.  `Divided gs fs` says so of the glyphs `gs` of a text: a
field is a run of glyphs that are not blank, and it goes on until a blank or the end.  Every text is
divided in one way, and these are the fields that are found (`fields_eq_iff`).  Words of visible
ASCII characters with a blank between neighbours are the fields of the text that they make up
(`fields_join`).
-/

namespace Colloquy.Text

/-- **Glyphs and the fields** into which white space divides them. -/
inductive Divided : List Glyph → List Text → Prop
  | nil : Divided [] []
  | blank {w : Glyph} {gs : List Glyph} {fs : List Text} (hw : w.isBlank) (h : Divided gs fs) :
      Divided (w :: gs) fs
  | field {f gs : List Glyph} {fs : List Text} (hne : f ≠ []) (hf : ∀ g ∈ f, ¬ g.isBlank)
      (hend : ∀ g ∈ gs.head?, g.isBlank) (h : Divided gs fs) : Divided (f ++ gs) (ofGlyphs f :: fs)

theorem exists_divided (gs : List Glyph) : ∃ fs, Divided gs fs := by
  induction gs with
  | nil => exact ⟨[], .nil⟩
  | cons g gs ih =>
    obtain ⟨fs, h⟩ := ih
    by_cases hg : g.isBlank
    · exact ⟨fs, .blank hg h⟩
    -- the glyph starts a field of its own, or belongs to the field that follows it
    have hsingle : ∀ x ∈ [g], ¬ x.isBlank := by simpa using hg
    cases h with
    | nil => exact ⟨_, .field (f := [g]) (by simp) hsingle (by simp) .nil⟩
    | blank hw h =>
      exact ⟨_, .field (f := [g]) (by simp) hsingle (by simpa using hw) (.blank hw h)⟩
    | @field f gs fs hne hf hend h =>
      refine ⟨_, .field (f := g :: f) (by simp) ?_ hend h⟩
      exact List.forall_mem_cons.mpr ⟨hg, hf⟩

theorem fieldsFrom_append {f : List Glyph} (hf : ∀ g ∈ f, ¬ g.isBlank) (cur : Text)
    (gs : List Glyph) : fieldsFrom cur (f ++ gs) = fieldsFrom (cur ++ ofGlyphs f) gs := by
  induction f generalizing cur with
  | nil => simp [ofGlyphs]
  | cons g f ih =>
    rw [List.forall_mem_cons] at hf
    rw [List.cons_append, fieldsFrom, if_neg hf.1, ih hf.2, List.append_assoc]
    rfl

theorem fieldsFrom_of_end {cur : Text} (hcur : cur ≠ []) {gs : List Glyph}
    (hend : ∀ g ∈ gs.head?, g.isBlank) : fieldsFrom cur gs = cur :: fieldsFrom [] gs := by
  have hempty : cur.isEmpty = false := by simpa using hcur
  cases gs with
  | nil => simp [fieldsFrom, hempty]
  | cons g gs => simp [fieldsFrom, hempty, hend g rfl]

theorem ofGlyphs_ne_nil {f : List Glyph} (hne : f ≠ []) : ofGlyphs f ≠ [] := by
  obtain ⟨g, gs, rfl⟩ := List.exists_cons_of_ne_nil hne
  have hbytes : g.bytes ≠ [] := by
    cases g with
    | stray b => simp [Glyph.bytes]
    | char c =>
      obtain ⟨a, u, hc, -⟩ := leading?_utf8EncodeChar c []
      simp [Glyph.bytes, hc]
  simp [ofGlyphs, hbytes]

theorem Divided.fieldsFrom_eq {gs : List Glyph} {fs : List Text} (h : Divided gs fs) :
    fieldsFrom [] gs = fs := by
  induction h with
  | nil => rfl
  | blank hw h ih =>
    rw [fieldsFrom, if_pos hw, if_pos List.isEmpty_nil]
    exact ih
  | field hne hf hend h ih =>
    rw [fieldsFrom_append hf, List.nil_append, fieldsFrom_of_end (ofGlyphs_ne_nil hne) hend, ih]

/-- **The fields of a text** are those into which white space divides it. -/
theorem fields_eq_iff {t : Text} {fs : List Text} : t.fields = fs ↔ Divided t.glyphs fs := by
  constructor
  · rintro rfl
    obtain ⟨fs, h⟩ := exists_divided t.glyphs
    rw [fields, h.fieldsFrom_eq]
    exact h
  · exact Divided.fieldsFrom_eq

/-! ### Words -/

/-- The bytes of visible ASCII characters. -/
def isVisible (b : UInt8) : Bool := 0x20 < b.toNat && b.toNat < 0x7F

/-- **A word**: visible ASCII characters, one at least. -/
structure Word (t : Text) : Prop where
  ne_nil : t ≠ []
  visible : t.all isVisible = true

/-- The glyph of a byte of ASCII. -/
def ascii (b : UInt8) : Glyph := .char (.ofNat b.toNat)

theorem bytes_ascii {b : UInt8} (hb : b.toNat < 0x80) : (ascii b).bytes = [b] := by
  have hbytes : ∀ n < 0x80, String.utf8EncodeChar (.ofNat n) = [UInt8.ofNat n] := by decide
  rw [ascii, Glyph.bytes, hbytes _ hb, UInt8.ofNat_toNat]

theorem isVisible_iff {b : UInt8} : isVisible b = true ↔ 0x20 < b.toNat ∧ b.toNat < 0x7F := by
  simp [isVisible]

theorem isBlank_ascii {b : UInt8} (hb : isVisible b = true) : ¬ (ascii b).isBlank := by
  have hblank : ∀ n < 0x7F, 0x20 < n → ¬ (Glyph.char (.ofNat n)).isBlank := by decide
  obtain ⟨hlow, hhigh⟩ := isVisible_iff.mp hb
  exact hblank _ hhigh hlow

theorem glyphs_ascii_append {t : Text} (h : ∀ b ∈ t, b.toNat < 0x80) (u : Text) :
    glyphs (t ++ u) = t.map ascii ++ glyphs u := by
  induction t with
  | nil => rfl
  | cons b t ih =>
    rw [List.forall_mem_cons] at h
    have hb : b :: t ++ u = (ascii b).bytes ++ (t ++ u) := by rw [bytes_ascii h.1]; rfl
    rw [hb, ascii, glyphs_char_append, ih h.2]
    rfl

theorem ofGlyphs_map_ascii {t : Text} (h : ∀ b ∈ t, b.toNat < 0x80) : ofGlyphs (t.map ascii) = t := by
  have hglyphs := glyphs_ascii_append h []
  rw [List.append_nil, show glyphs [] = [] from rfl, List.append_nil] at hglyphs
  rw [← hglyphs, ofGlyphs_glyphs]

theorem Word.divided {t u : Text} (ht : Word t) (hend : ∀ g ∈ u.glyphs.head?, g.isBlank)
    {fs : List Text} (h : Divided u.glyphs fs) : Divided (t ++ u).glyphs (t :: fs) := by
  have hvisible := List.all_eq_true.mp ht.visible
  have hascii : ∀ b ∈ t, b.toNat < 0x80 :=
    fun b hb => (isVisible_iff.mp (hvisible b hb)).2.trans (by decide)
  have hfield : Divided (t.map ascii ++ u.glyphs) (ofGlyphs (t.map ascii) :: fs) := by
    refine .field (by simpa using ht.ne_nil) ?_ hend h
    exact List.forall_mem_map.mpr fun b hb => isBlank_ascii (hvisible b hb)
  rwa [ofGlyphs_map_ascii hascii, ← glyphs_ascii_append hascii] at hfield

theorem all_isVisible_ofDigits {ds : List ℕ} (h : ∀ d ∈ ds, d < 10) :
    (ofDigits ds).all isVisible = true := by
  rw [ofDigits, List.all_map, List.all_eq_true]
  intro d hd
  have hd' := h d hd
  rw [Function.comp_apply, isVisible_iff, digit_toNat hd']
  omega

theorem all_isVisible_ofInt (n : ℤ) : (ofInt n).all isVisible = true := by
  have hnat (m : ℕ) : (ofNat m).all isVisible = true :=
    all_isVisible_ofDigits fun d hd => lt_of_mem_placesIn (by decide) hd
  cases n with
  | ofNat m => exact hnat m
  | negSucc m =>
    rw [ofInt, List.all_append, hnat]
    decide

/-- **Words with a blank between neighbours** are the fields of what they make up. -/
theorem fields_join {ts : List Text} (h : ∀ t ∈ ts, Word t) : fields (join " " ts) = ts := by
  rw [fields_eq_iff]
  induction ts with
  | nil => exact .nil
  | cons t ts ih =>
    rw [List.forall_mem_cons] at h
    cases ts with
    | nil =>
      have hlast := h.1.divided (u := []) (by simp [glyphs, glyphsAfter]) .nil
      rw [List.append_nil] at hlast
      rwa [join, List.intercalate_singleton]
    | cons u ts =>
      have hblank : glyphs (" " ++ join " " (u :: ts)) = .char ' ' :: glyphs (join " " (u :: ts)) :=
        glyphs_char_append ' ' _
      rw [join, List.intercalate_cons_cons, List.append_assoc, ← join]
      refine h.1.divided ?_ ?_
      · rw [hblank]
        simp [Glyph.isBlank]
      · rw [hblank]
        exact .blank (by decide) (ih h.2)

end Colloquy.Text
