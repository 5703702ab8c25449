import Colloquy.Number.Binary
import Colloquy.Text.Digits

/-!
# Decimals

The decimal text of a floating-point number.  A decimal has significant digits and the exponent of
the first of them.  It is written positionally if that exponent lies between `-4` and `5`, otherwise
with one digit before the point and an exponent of at least two digits.

Two choices of digits are made here: the six nearest digits (`Binary.sixDigits`), and the fewest
digits that read back as the same number (`Binary.shortest`).
-/

namespace Colloquy

/-- **A positive decimal**: its significant digits, and the exponent of ten of the first one. -/
structure Decimal where
  digits : List Nat
  exponent : Int
deriving DecidableEq, Repr

namespace Decimal

/-- The exponent of the first decimal digit of `num / den`, a positive quotient. -/
def magnitude (num den : Nat) : Int :=
  if den ≤ num then (Text.width (num / den) : Int) - 1 else -(Text.width ((den - 1) / num) : Int)

/-- Digits without the zeros at their end. -/
def trimZeros (ds : List Nat) : List Nat := (ds.reverse.dropWhile (· == 0)).reverse

/-- The decimal `m * 10 ^ k`. -/
def ofScaled (m : Nat) (k : Int) : Decimal :=
  let w := Text.width m
  ⟨trimZeros (Text.places w m), w - 1 + k⟩

/-- The least and the greatest exponent of a decimal that is written positionally. -/
def positional : Int × Int := (-4, 5)

/-- An exponent with its sign and at least two digits. -/
def exponentText (e : Int) : Text :=
  let n := e.natAbs
  (if e < 0 then "e-" else "e+") ++ Text.ofDigits (Text.places (max 2 (Text.width n)) n)

/-- Digits with a point after the first `n` of them, and none if no digit follows it. -/
def pointAfter (n : Nat) (ds : List Nat) : Text :=
  if ds.length ≤ n then Text.ofDigits (ds ++ List.replicate (n - ds.length) 0)
  else Text.ofDigits (ds.take n) ++ "." ++ Text.ofDigits (ds.drop n)

/-- **The text of a decimal.** -/
def text (d : Decimal) : Text :=
  if d.exponent < positional.1 ∨ positional.2 < d.exponent then
    pointAfter 1 d.digits ++ exponentText d.exponent
  else if d.exponent < 0 then
    pointAfter 1 (List.replicate d.exponent.natAbs 0 ++ d.digits)
  else pointAfter (d.exponent.toNat + 1) d.digits

/-- `num / den` rounded to `n` significant digits, a half to the even digit. -/
def nearest (n num den : Nat) : Decimal :=
  let k := (n : Int) - 1 - magnitude num den
  let q := Power.scale num den k
  ofScaled (Rounding.toEven q.1 q.2) (-k)

/-- The decimal `m * 10 ^ k` as a quotient reads back as the number with the given code. -/
def readsBack (f : Format) (code m : Nat) (k : Int) : Bool :=
  let q := Power.scale m 1 k
  f.nearest q.1 q.2 == code

/-- The decimal of `n` digits next to the number with the given code that reads back as it: of two,
the nearer one, and of two equally near ones the even one. -/
def readingBack? (f : Format) (code n : Nat) : Option Decimal :=
  let num := f.units code
  let den := Power.two f.finest
  let k := (n : Int) - 1 - magnitude num den
  let q := Power.scale num den k
  let below := q.1 / q.2
  let chosen := Rounding.toEven q.1 q.2
  let other := if chosen = below then below + 1 else below
  if readsBack f code chosen (-k) then some (ofScaled chosen (-k))
  else if readsBack f code other (-k) then some (ofScaled other (-k))
  else none

end Decimal

namespace Binary

variable {f : Format}

/-- The digits of a positive number to six places. -/
def sixDigits (code : Fin f.ceiling) : Decimal :=
  Decimal.nearest 6 (f.units code) (Power.two f.finest)

/-- **The fewest digits that read back** as the positive number with the given code.  Seventeen are
enough for a double. -/
def shortest (code : Fin f.ceiling) : Decimal :=
  ((List.range 17).findSome? fun n => Decimal.readingBack? f code (n + 1)).getD
    (Decimal.nearest 17 (f.units code) (Power.two f.finest))

/-- How a number is written: its digits, and the words for what has none. -/
structure Spelling (f : Format) where
  digits : Fin f.ceiling → Decimal
  nan : Text
  infinity : Text
  negativeInfinity : Text

/-- A number in a given spelling.  The sign of zero is written too. -/
def write (w : Spelling f) : Binary f → Text
  | .nan => w.nan
  | .infinite s => if s then w.negativeInfinity else w.infinity
  | .finite s c =>
    let digits := if c.val = 0 then Text.ofString "0" else (w.digits c).text
    if s then "-" ++ digits else digits

/-- **A number as programs say it**: to six significant digits. -/
def text (x : Binary f) : Text := x.write ⟨sixDigits, "nan", "inf", "-inf"⟩

/-- A number as messages and log lines quote it: exactly, by its shortest digits. -/
def exactText (x : Binary f) : Text := x.write ⟨shortest, "NaN", "+Inf", "-Inf"⟩

end Binary

end Colloquy
