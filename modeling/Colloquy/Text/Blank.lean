import Colloquy.Text.Glyph

/-!
# Blanks

The characters with the Unicode property White_Space, the fields that they divide a text into, and
what is left of a text after the blanks at its start.
-/

namespace Colloquy

namespace Glyph

/-- Whether a glyph is white space.  A stray byte is not. -/
def isBlank : Glyph → Bool
  | stray _ => false
  | char c =>
    let n := c.toNat
    (9 ≤ n && n ≤ 13) || n == 0x20 || n == 0x85 || n == 0xA0 || n == 0x1680 ||
      (0x2000 ≤ n && n ≤ 0x200A) || n == 0x2028 || n == 0x2029 || n == 0x202F || n == 0x205F ||
      n == 0x3000

end Glyph

namespace Text

/-- The fields of a list of glyphs, the first of which continues the text `cur`. -/
def fieldsFrom : Text → List Glyph → List Text
  | cur, [] => if cur.isEmpty then [] else [cur]
  | cur, g :: gs =>
    if g.isBlank then
      if cur.isEmpty then fieldsFrom [] gs else cur :: fieldsFrom [] gs
    else fieldsFrom (cur ++ g.bytes) gs

/-- **The fields of a text**: its longest parts without blanks, in order. -/
def fields (t : Text) : List Text := fieldsFrom [] t.glyphs

/-- A text without the blanks at its start. -/
def trimStart (t : Text) : Text := ofGlyphs (t.glyphs.dropWhile Glyph.isBlank)

end Text

end Colloquy
