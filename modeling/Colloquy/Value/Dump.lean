import Colloquy.Text.Quoted
import Colloquy.Value.Plain

/-!
# Dumps of values

A value with the types of all its parts, one part a line, each level indented by one blank.  A
warning about a value that cannot be shown carries its dump.
-/

namespace Colloquy

namespace Dump

/-- The indentation of a level. -/
def indent (depth : Nat) : Text := List.replicate depth 32

/-- A type name in front of its value. -/
def typed (name : Text) : Text := "(" ++ name ++ ") "

/-- The length and the capacity of a sequence; nothing if it is empty. -/
def extent (n : Nat) (capacity : Bool) : Text :=
  if n = 0 then []
  else if capacity then "(len=" ++ Text.ofNat n ++ " cap=" ++ Text.ofNat n ++ ") "
  else "(len=" ++ Text.ofNat n ++ ") "

/-- Parts between braces, one a line, on the level below `depth`. -/
def block (depth : Nat) (parts : List Text) : Text :=
  let lines := parts.map (indent (depth + 1) ++ ·)
  let lastEnd : Text := if parts.isEmpty then [] else [10]
  "\x7b\n" ++ Text.join ",\n" lines ++ lastEnd ++ indent depth ++ "\x7d"

/-- A text with its length in bytes. -/
def text (t : Text) : Text := extent t.length false ++ t.quoted

/-- A scalar without its type. -/
def scalar : (b : Base) → b.Carrier → Text
  | .text, t => text t
  | b, x => b.plain x

/-- An atom without its type. -/
def atom : (t : AtomType) → t.Carrier → Text
  | .scalar t, x => scalar t.base x
  | .int, n => Text.ofInt n

/-- A sequence of atoms after its type; nothing is said of one that is missing. -/
def atoms (depth : Nat) (t : AtomType) : Option (List t.Carrier) → Text
  | none => "<nil>"
  | some xs => extent xs.length true ++ block depth (xs.map fun x => typed t.name ++ atom t x)

/-- What a queue or a stack holds, as the items of a record. -/
def held (depth : Nat) (t : ScalarType) (xs : List t.Carrier) : Text :=
  block depth ["items: " ++ typed ("[]" ++ t.name) ++ atoms (depth + 1) (.scalar t) (some xs)]

end Dump

namespace Value

open Dump

/-- The name under which a value is dumped where the type `t` is expected: that of its own type, if
it is there at all. -/
def nameIn (t : Text) : Value → Text
  | absent => t
  | v => v.typeName

mutual

/-- The dump of a value on the level `depth`, under the name of its type and without the line
end. -/
def dumpAs (name : Text) (depth : Nat) : Value → Text
  | absent => typed name ++ "<nil>"
  | atom t x => typed name ++ Dump.atom t x
  | other _ d => typed name ++ d.dump depth
  | slice _ t items => typed name ++ atoms depth t items
  | list _ _ none => typed name ++ "<nil>"
  | list _ t (some vs) =>
    typed name ++ extent vs.length true ++ block depth (dumpAll t.name (depth + 1) vs)
  | array _ t items => typed name ++ atoms depth (.scalar t) items
  | queue _ none => "(" ++ name ++ ")(<nil>)"
  | queue t (some q) => "(" ++ name ++ ")(" ++ held depth t q.items ++ ")"
  | stack _ none => "(" ++ name ++ ")(<nil>)"
  | stack t (some s) => "(" ++ name ++ ")(" ++ held depth t s.items ++ ")"
  | record fs =>
    typed name ++ extent fs.length false ++ block depth (dumpFields (depth + 1) fs)
  | foreign _ k l vs =>
    typed name ++ block depth [
      "kind: " ++ typed "core.Kind" ++ k.name,
      "len: " ++ typed "int" ++ Text.ofInt l,
      "elems: " ++ typed (typeName (list none .any none)) ++ extent vs.length true ++
        block (depth + 1) (dumpAll ItemType.any.name (depth + 2) vs)]
  | named _ v => dumpAs name depth v

/-- The dump of each item of a list of type `t`. -/
def dumpAll (t : Text) (depth : Nat) : List Value → List Text
  | [] => []
  | v :: vs => dumpAs (v.nameIn t) depth v :: dumpAll t depth vs

/-- The dump of each field, its name before its value. -/
def dumpFields (depth : Nat) : List (Text × Value) → List Text
  | [] => []
  | (n, v) :: fs =>
    (typed "string" ++ text n ++ ": " ++ dumpAs (v.nameIn ItemType.any.name) depth v) ::
      dumpFields depth fs

end

/-- **The dump of a value.** -/
def dump (v : Value) : Text := v.dumpAs (v.nameIn ItemType.any.name) 0 ++ "\n"

end Value

end Colloquy
