import Colloquy.Number.Power
import Colloquy.Number.Rounding

/-!
# Binary floating-point numbers

A binary format has so many significant bits, a finest step `2 ^ (-finest)` and a largest binade.
Its non-negative finite numbers are numbered from zero upwards by their *codes*: the code of a
number is also the bit pattern by which it is stored, and the next code is the next larger number.
Every number is a whole multiple of the finest step, so `Format.units` gives its exact value as a
natural, and all rounding is done on quotients of naturals.

NaN is a single datum: no operation here tells one NaN from another.
-/

namespace Colloquy

/-- **A binary format.**  `precision` is the number of significant bits, `2 ^ (-finest)` the least
positive number, and `ceiling` the code of infinity. -/
structure Format where
  precision : Nat
  finest : Nat
  ceiling : Nat
deriving DecidableEq, Repr

namespace Format

/-- Sixty-four bits, fifty-three of them significant. -/
def double : Format := ⟨53, 1074, 0x7FF0000000000000⟩

/-- Thirty-two bits, twenty-four of them significant. -/
def single : Format := ⟨24, 149, 0x7F800000⟩

/-- The number with a given code, in units of the finest step.  The codes below `2 ^ (precision -
1)` are one step apart; after that the steps double at each multiple of it. -/
def units (f : Format) (code : Nat) : Nat :=
  let h := Power.two (f.precision - 1)
  if code < h then code else (h + code % h) * Power.two (code / h - 1)

/-- The code of the number nearest to `num / den`, of two the one with the even code.  It is at
least the ceiling if the quotient is too large for the format. -/
def nearest (f : Format) (num den : Nat) : Nat :=
  let n := num * Power.two f.finest
  let s := (n / den).log2 + 1 - f.precision
  s * Power.two (f.precision - 1) + Rounding.toEven n (den * Power.two s)

/-- The natural `n` rounded to the precision of the format. -/
def roundNat (f : Format) (n : Nat) : Nat := f.units (f.nearest n 1) / Power.two f.finest

/-- The integer `n` rounded to the precision of the format. -/
def roundInt (f : Format) (n : Int) : Int := n.sign * f.roundNat n.natAbs

end Format

/-- **A floating-point datum** of the format `f`. -/
inductive Binary (f : Format) where
  | nan
  | infinite (negative : Bool)
  | finite (negative : Bool) (code : Fin f.ceiling)
deriving DecidableEq, Repr

/-- A number of sixty-four bits. -/
abbrev Double := Binary .double

/-- A number of thirty-two bits. -/
abbrev Single := Binary .single

namespace Binary

variable {f g : Format}

/-- The number with the given sign and code; infinite from the ceiling on. -/
def ofCode (negative : Bool) (code : Nat) : Binary f :=
  if h : code < f.ceiling then .finite negative ⟨code, h⟩ else .infinite negative

/-- The number nearest to `num / den` with the given sign. -/
def ofRatio (negative : Bool) (num den : Nat) : Binary f := ofCode negative (f.nearest num den)

/-- The number nearest to an integer. -/
def ofInt (n : Int) : Binary f := ofRatio (n < 0) n.natAbs 1

/-- **A number moved to another format**: the nearest one there. -/
def convert : Binary f → Binary g
  | nan => nan
  | infinite s => infinite s
  | finite s c => ofRatio s (f.units c) (Power.two f.finest)

/-- The bits by which a number is stored; a NaN has no bits of its own. -/
def bits? : Binary f → Option Nat
  | nan => none
  | infinite s => some (signBit s + f.ceiling)
  | finite s c => some (signBit s + c)
where
  /-- The sign bit lies above all codes, those of NaNs included. -/
  signBit (s : Bool) : Nat := if s then f.ceiling + Power.two (f.precision - 1) else 0

/-- A finite number rounded to the nearest integer, a half away from zero. -/
def round? : Binary f → Option Int
  | nan | infinite _ => none
  | finite s c =>
    let n := Rounding.halfUp (f.units c) (Power.two f.finest)
    some (if s then -(n : Int) else n)

end Binary

end Colloquy
