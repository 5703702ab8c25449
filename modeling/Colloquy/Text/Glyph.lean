import Colloquy.Text.Basic

/-!
# Glyphs

A text is read as a list of glyphs: a glyph is a character, or a stray byte that belongs to no
well-formed UTF-8 sequence.  A sequence is well formed if it is the shortest one for its character,
and surrogates are no characters.  The bytes of the glyphs of a text, put together, are the text.
-/

namespace Colloquy

/-- **A glyph**: a character of a text, or a byte that is part of none. -/
inductive Glyph where
  | char (c : Char)
  | stray (b : UInt8)
deriving DecidableEq, Repr

namespace Glyph

/-- The bytes that a glyph stands for. -/
def bytes : Glyph → Text
  | char c => String.utf8EncodeChar c
  | stray b => [b]

end Glyph

namespace Text

/-- The number that `n` continuation bytes add to the payload `acc` of a first byte. -/
def payload? : Nat → Nat → Text → Option Nat
  | 0, acc, _ => some acc
  | _ + 1, _, [] => none
  | n + 1, acc, b :: t =>
    if 0x80 ≤ b ∧ b < 0xC0 then payload? n (64 * acc + (b.toNat - 0x80)) t else none

/-- The character of a sequence with payload `n`, which is at least `least` if the sequence is the
shortest one. -/
def character? (least n : Nat) : Option Char :=
  if least ≤ n ∧ n.isValidChar then some (Char.ofNat n) else none

/-- The character whose sequence starts the text `a :: t`, and how many bytes of `t` belong to the
sequence. -/
def leading? (a : UInt8) (t : Text) : Option (Char × Nat) :=
  let sequence (least n first : Nat) : Option (Char × Nat) :=
    ((payload? n (a.toNat - first) t).bind (character? least)).map (·, n)
  if a < 0x80 then sequence 0 0 0
  else if a < 0xC0 then none
  else if a < 0xE0 then sequence 0x80 1 0xC0
  else if a < 0xF0 then sequence 0x800 2 0xE0
  else if a < 0xF8 then sequence 0x10000 3 0xF0
  else none

/-- The glyphs of a text of which the first `n` bytes belong to an earlier glyph. -/
def glyphsAfter : Nat → Text → List Glyph
  | _, [] => []
  | n + 1, _ :: t => glyphsAfter n t
  | 0, a :: t =>
    match leading? a t with
    | some (c, n) => .char c :: glyphsAfter n t
    | none => .stray a :: glyphsAfter 0 t

/-- **The glyphs of a text**, in order. -/
def glyphs (t : Text) : List Glyph := glyphsAfter 0 t

/-- The text of a list of glyphs. -/
def ofGlyphs (gs : List Glyph) : Text := gs.flatMap Glyph.bytes

end Text

end Colloquy
