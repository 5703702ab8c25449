/-!
# Powers

The powers by which the digits of a number are shifted: those of two for its bits, and those of ten
for its decimals.
-/

namespace Colloquy.Power

/-- The power of two with exponent `n`. -/
def two (n : Nat) : Nat := Nat.pow 2 n

/-- The power of ten with exponent `n`. -/
def ten (n : Nat) : Nat := Nat.pow 10 n

/-- The quotient `num / den` times the power of ten with exponent `k`, again as a quotient. -/
def scale (num den : Nat) (k : Int) : Nat × Nat :=
  if 0 ≤ k then (num * ten k.toNat, den) else (num, den * ten (-k).toNat)

end Colloquy.Power
