import Colloquy.Text.Basic

/-!
# Digits

Naturals and integers in decimal, and naturals in hexadecimal with a fixed number of places.
`places k n` writes the last `k` decimal digits of `n`; the decimal text of `n` takes as many places
as `n` needs.
-/

namespace Colloquy.Text

/-- The byte of the digit `d`, for `d` below sixteen. -/
def digit (d : Nat) : UInt8 := if d < 10 then (48 + d).toUInt8 else (87 + d).toUInt8

/-- The last `k` digits of `n` in base `b`, most significant first. -/
def placesIn (b : Nat) : Nat → Nat → List Nat
  | 0, _ => []
  | k + 1, n => placesIn b k (n / b) ++ [n % b]

/-- The last `k` decimal digits of `n`, most significant first. -/
def places (k n : Nat) : List Nat := placesIn 10 k n

/-- Counts the decimal digits of `n` as long as the fuel lasts. -/
def widthWithin : Nat → Nat → Nat
  | 0, _ => 0
  | fuel + 1, n => if n = 0 then 0 else widthWithin fuel (n / 10) + 1

/-- How many decimal digits `n` has; zero has none. -/
def width (n : Nat) : Nat := widthWithin (n.log2 + 1) n

/-- The text of a list of digits. -/
def ofDigits (ds : List Nat) : Text := ds.map digit

/-- **A natural in decimal**, without leading zeros. -/
def ofNat (n : Nat) : Text := ofDigits (places (max 1 (width n)) n)

/-- An integer in decimal, with a minus sign if it is negative. -/
def ofInt : Int → Text
  | .ofNat n => ofNat n
  | .negSucc n => ofString "-" ++ ofNat (n + 1)

/-- The last `k` hexadecimal digits of `n`, in lower case. -/
def hex (k n : Nat) : Text := ofDigits (placesIn 16 k n)

/-- The natural that a list of decimal digits denotes. -/
def ofPlaces (ds : List Nat) : Nat := ds.foldl (fun n d => 10 * n + d) 0

/-- The value of the byte of a decimal digit. -/
def digitValue? (b : UInt8) : Option Nat := if 48 ≤ b ∧ b ≤ 57 then some (b.toNat - 48) else none

end Colloquy.Text
