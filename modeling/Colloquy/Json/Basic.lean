import Colloquy.Value.Basic

/-!
# JSON values

What a JSON text denotes.  Its numbers are doubles, and an object may give a key several times: the
last value counts.
-/

namespace Colloquy

/-- **A JSON value.** -/
inductive Json where
  | null
  | bool (b : Bool)
  | number (x : Double)
  | string (t : Text)
  | array (items : List Json)
  | object (members : List (Text × Json))

namespace Json

/-- The kind that an item of an array has: only scalars have one. -/
def kind : Json → Kind
  | number _ => .num
  | string _ => .str
  | bool _ => .bool
  | _ => .unknown

/-- Adds a field to a record, in place of an earlier one with that name. -/
def putField (fs : List (Text × Value)) (f : Text × Value) : List (Text × Value) :=
  fs.filter (·.1 != f.1) ++ [f]

mutual

/-- A JSON value as a value. -/
def toValue : Json → Value
  | null => .absent
  | bool b => .bool b
  | number x => .num x
  | string t => .str t
  | array js => .list none .any (some (toValues js))
  | object ms => .record ((toFields ms).foldl putField [])

/-- JSON values as values. -/
def toValues : List Json → List Value
  | [] => []
  | j :: js => toValue j :: toValues js

/-- The members of an object as fields. -/
def toFields : List (Text × Json) → List (Text × Value)
  | [] => []
  | (k, j) :: ms => (k, toValue j) :: toFields ms

end

end Json

end Colloquy
