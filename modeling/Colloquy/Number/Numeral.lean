import Colloquy.Number.Binary
import Colloquy.Text.Digits

/-!
# Numerals

A numeral is a sign, digits with at most one point among them, and an optional exponent.  It denotes
the floating-point number nearest to its exact value.
-/

namespace Colloquy

/-- **A numeral**: `mantissa * 10 ^ exponent`, with a sign. -/
structure Numeral where
  negative : Bool
  mantissa : Nat
  exponent : Int
deriving DecidableEq, Repr

namespace Numeral

/-- The decimal digits at the start of a text, and the rest. -/
def spanDigits : Text → List Nat × Text
  | [] => ([], [])
  | b :: t =>
    match Text.digitValue? b with
    | some d => (d :: (spanDigits t).1, (spanDigits t).2)
    | none => ([], b :: t)

/-- Whether a text starts with a minus sign, and the rest after its sign, if it has one. -/
def spanSign : Text → Bool × Text
  | 45 :: t => (true, t)
  | 43 :: t => (false, t)
  | t => (false, t)

/-- The exponent that digits denote.  Digits that follow once it has reached ten thousand are not
counted: the numeral is then out of every range anyway. -/
def exponentOf (ds : List Nat) : Nat := ds.foldl (fun e d => if e < 10000 then 10 * e + d else e) 0

/-- The exponent that makes up the rest of a numeral; zero if there is no rest. -/
def exponent? : Text → Option Int
  | [] => some 0
  | m :: t =>
    if m = 101 ∨ m = 69 then
      let (s, u) := spanSign t
      let (ds, rest) := spanDigits u
      if ds.isEmpty ∨ ¬ rest.isEmpty then none
      else some (if s then -(exponentOf ds : Int) else exponentOf ds)
    else none

/-- **The numeral that a text spells**, if the whole text is one. -/
def read? (t : Text) : Option Numeral :=
  let (s, u) := spanSign t
  let (whole, rest) := spanDigits u
  let (part, rest) :=
    match rest with
    | 46 :: r => spanDigits r
    | r => ([], r)
  if whole.isEmpty ∧ part.isEmpty then none
  else (exponent? rest).map fun e => ⟨s, Text.ofPlaces (whole ++ part), e - part.length⟩

/-- The number nearest to a numeral; infinite if it is too large for the format. -/
def toBinary {f : Format} (n : Numeral) : Binary f :=
  let q := Power.scale n.mantissa 1 n.exponent
  Binary.ofRatio n.negative q.1 q.2

end Numeral

end Colloquy
