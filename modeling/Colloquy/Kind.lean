import Colloquy.Text.Digits

/-!
# Kinds

The kind of a value is the shape under which a program declares it: a number, a string, a boolean,
or a container of those.  Kinds are numbered openly, since a foreign container may claim any number.
-/

namespace Colloquy

/-- **A kind**, by its number. -/
structure Kind where
  code : Int
deriving DecidableEq, Repr

namespace Kind

def unknown : Kind := ⟨0⟩
def num : Kind := ⟨1⟩
def str : Kind := ⟨2⟩
def bool : Kind := ⟨3⟩
def array : Kind := ⟨4⟩
def queue : Kind := ⟨5⟩
def stack : Kind := ⟨6⟩

/-- The kinds that have a name of their own. -/
def names : List (Kind × Text) :=
  [(unknown, "unknown"), (num, "num"), (str, "str"), (bool, "bool"),
   (array, "a"), (queue, "q"), (stack, "s")]

/-- The name of a kind; without one of its own, its number. -/
def name (k : Kind) : Text :=
  match names.lookup k with
  | some n => n
  | none => "Kind(" ++ Text.ofInt k.code ++ ")"

/-- **A walk through the names**, in any order. -/
structure Walk where
  order : List (Kind × Text)
  perm : order.Perm names

namespace Walk

/-- The walk in the order of the list. -/
def listed : Walk := ⟨names, .refl names⟩

/-- The kind that a declaration can call `n`: the first one with this name on the walk. -/
def ofName? (w : Walk) (n : Text) : Option Kind :=
  (w.order.find? fun p => p.1 != unknown && p.2 == n).map Prod.fst

end Walk

/-- Whether `k` is the kind of numbers, strings or booleans. -/
def isScalar (k : Kind) : Bool := k == num || k == str || k == bool

/-- Whether `k` is the kind of arrays, queues or stacks. -/
def isContainer (k : Kind) : Bool := k == array || k == queue || k == stack

end Kind

end Colloquy
