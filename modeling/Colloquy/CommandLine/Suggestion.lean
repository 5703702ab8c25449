import Colloquy.Text.Lowercase

/-!
# Suggestions

Which names a mistyped name may have been meant for: those that start with it, and those that two
changes of a byte turn it into.  A change adds, drops or replaces one byte.  Case makes no
difference.
-/

namespace Colloquy.Suggestion

/-- The rest of a row of distances.  `diagonal` and `left` are the neighbours of its first entry in
the row above and in this row, and `row` is the rest of the row above. -/
def rowAfter (a : UInt8) : Text → (diagonal left : Nat) → (row : List Nat) → List Nat
  | b :: t, diagonal, left, up :: row =>
    let d := if a = b then diagonal else min (min up left) diagonal + 1
    d :: rowAfter a t up d row
  | _, _, _, _ => []

/-- The distances of a text followed by `a` from the beginnings of `t`, where `row` has those of the
text itself. -/
def nextRow (t : Text) (row : List Nat) (a : UInt8) : List Nat :=
  match row with
  | [] => []
  | d :: ds => (d + 1) :: rowAfter a t d (d + 1) ds

/-- **The distance of two texts**: the least number of changes that turn one into the other. -/
def distance (s t : Text) : Nat :=
  (s.foldl (nextRow t) (List.range (t.length + 1))).getLastD 0

/-- Whether a name may have been meant by what was typed. -/
def resembles (typed name : Text) : Bool :=
  distance typed.lower name.lower ≤ 2 || typed.lower.isPrefixOf name.lower

end Colloquy.Suggestion
