import Colloquy.Text.Digits
import Colloquy.Text.Printable

/-!
# Quoted texts

A text or a character between quotes, on one line.  The quote and the backslash are written with a
backslash before them, printable characters as they are, and all else as an escape: by letter, by
two hexadecimal digits, or by the four or eight digits of the character's number.
-/

namespace Colloquy

namespace Quoted

/-- The letter that names a control character after a backslash. -/
def letter? (n : Nat) : Option UInt8 :=
  match n with
  | 7 => some 97
  | 8 => some 98
  | 9 => some 116
  | 10 => some 110
  | 11 => some 118
  | 12 => some 102
  | 13 => some 114
  | _ => none

/-- The byte `b` as an escape. -/
def escapeByte (b : Nat) : Text := "\\x" ++ Text.hex 2 b

/-- The character `c` inside the quotes `quote`. -/
def escapeChar (quote : UInt8) (c : Char) : Text :=
  let n := c.toNat
  if n = quote.toNat ∨ n = 92 then [92, n.toUInt8]
  else if isPrintable n then Glyph.bytes (.char c)
  else match letter? n with
    | some l => [92, l]
    | none =>
      if n < 0x20 ∨ n = 0x7F then escapeByte n
      else if n < 0x10000 then "\\u" ++ Text.hex 4 n
      else "\\U" ++ Text.hex 8 n

/-- A glyph inside the quotes `quote`. -/
def escape (quote : UInt8) : Glyph → Text
  | .char c => escapeChar quote c
  | .stray b => escapeByte b.toNat

end Quoted

namespace Text

/-- **A text between double quotes.** -/
def quoted (t : Text) : Text := 34 :: (t.glyphs.flatMap (Quoted.escape 34) ++ [34])

/-- The character with number `n` between single quotes. -/
def quotedChar (n : Nat) : Text := 39 :: (Quoted.escapeChar 39 (Char.ofNat n) ++ [39])

end Text

end Colloquy
