/-!
# Rounding a quotient

The two ways in which a quotient of naturals is rounded to a natural: to the nearest one, a half to
the even neighbour, and to the nearest one, a half upwards.
-/

namespace Colloquy.Rounding

/-- `num / den` rounded to the nearest natural, a half to the even neighbour. -/
def toEven (num den : Nat) : Nat :=
  let q := num / den
  let r := num % den
  if 2 * r < den ∨ (2 * r = den ∧ q % 2 = 0) then q else q + 1

/-- `num / den` rounded to the nearest natural, a half upwards. -/
def halfUp (num den : Nat) : Nat := (2 * num + den) / (2 * den)

end Colloquy.Rounding
