import Colloquy.Number.Decimal
import Colloquy.Value.Basic

/-!
# Plain texts of values

A value in one line, as it stands in a log line: texts as they are, numbers by their shortest
digits, items between brackets.
-/

namespace Colloquy

namespace Base

/-- A scalar in one line. -/
def plain : (b : Base) → b.Carrier → Text
  | double, x => Binary.exactText x
  | single, x => Binary.exactText x
  | text, t => t
  | truth, b => Text.ofBool b

end Base

namespace AtomType

/-- A value of an atomic type in one line. -/
def plain : (t : AtomType) → t.Carrier → Text
  | scalar t, x => t.base.plain x
  | int, n => Text.ofInt n

end AtomType

namespace Value

/-- Texts between brackets. -/
def bracketed (ts : List Text) : Text := "[" ++ Text.join " " ts ++ "]"

/-- Puts a field among fields that are sorted by name. -/
def insertField (f : Text × Text) : List (Text × Text) → List (Text × Text)
  | [] => [f]
  | g :: gs => if Text.before g.1 f.1 then g :: insertField f gs else f :: g :: gs

/-- The fields of a record in one line, sorted by name. -/
def fieldTexts (fs : List (Text × Text)) : List Text :=
  (fs.foldr insertField []).map fun f => f.1 ++ ":" ++ f.2

mutual

/-- **A value in one line.** -/
def plain : Value → Text
  | absent => "<nil>"
  | atom t x => t.plain x
  | other _ d => d.plain
  | slice _ t items => bracketed ((items.getD []).map t.plain)
  | list _ _ none => bracketed []
  | list _ _ (some vs) => bracketed (plainAll vs)
  | array _ t items => bracketed ((items.getD []).map t.base.plain)
  | queue _ none => "<nil>"
  | queue t (some q) => "&\x7b" ++ bracketed (q.items.map t.base.plain) ++ "\x7d"
  | stack _ none => "<nil>"
  | stack t (some s) => "&\x7b" ++ bracketed (s.items.map t.base.plain) ++ "\x7d"
  | record fs => "map" ++ bracketed (fieldTexts (plainFields fs))
  | foreign _ k l vs =>
    "\x7b" ++ k.name ++ " " ++ Text.ofInt l ++ " " ++ bracketed (plainAll vs) ++ "\x7d"
  | named _ v => plain v

/-- Each value in one line. -/
def plainAll : List Value → List Text
  | [] => []
  | v :: vs => plain v :: plainAll vs

/-- Each field with its value in one line. -/
def plainFields : List (Text × Value) → List (Text × Text)
  | [] => []
  | (n, v) :: fs => (n, plain v) :: plainFields fs

end

end Value

end Colloquy
