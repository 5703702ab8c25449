/-!
# Texts

What a program says, reads and is given on its command line is a list of bytes.  Most of it is
UTF-8, but a stray byte is no fault: it is carried along, counted and printed like any other.
-/

namespace Colloquy

/-- **A text**: any list of bytes, well-formed UTF-8 or not. -/
abbrev Text := List UInt8

namespace Text

/-- The bytes of a string. -/
def ofString (s : String) : Text := s.toUTF8.data.toList

instance : Coe String Text := ⟨ofString⟩

/-- The word for a truth value. -/
def ofBool (b : Bool) : Text := if b then "true" else "false"

/-- The texts `ts` with `sep` between neighbours. -/
def join (sep : Text) (ts : List Text) : Text := sep.intercalate ts

/-- Text `t` without its first bytes `w`, if it starts with them. -/
def dropStart? (w : Text) (t : Text) : Option Text :=
  if w.isPrefixOf t then some (t.drop w.length) else none

/-- Text `t` without the bytes at its end that satisfy `p`. -/
def trimEnd (p : UInt8 → Bool) (t : Text) : Text := (t.reverse.dropWhile p).reverse

/-- Texts in the order of their bytes. -/
def before (s t : Text) : Bool := decide (s < t)

end Text

end Colloquy
