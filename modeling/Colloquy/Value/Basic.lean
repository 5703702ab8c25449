import Colloquy.Container.Queue
import Colloquy.Container.Stack
import Colloquy.Kind
import Colloquy.Number.Binary

/-!
# Values

The values that reach a builtin.  A scalar is a number, a text or a truth value; its type is one of
the four base types or a named type over one of them.  Slices, arrays, queues and stacks hold
scalars of one type, and this is part of their form: an array of singles cannot hold anything else.
There are also integers and slices of them, values of any other type, of which only the name of the
type and the texts are known, lists of items of any type at all, records, foreign containers, about
which nothing is known but what they claim of themselves, and values of named types over any of
these.

A vector is a slice, a list or an array, or a value of a named type over one.  Its elements can be
replaced, and it may belong to a variable, whose name it then bears as its owner: vectors with one
owner are one and the same vector, wherever they are held.  Nothing else about a value depends on the
owner.

Types are told apart by their names.  A named type over another is a type of its own, but the value
is the same under both names: `Value.under` gives it the one or the other.

`Value.kind` says under which kind a program would declare a value, and `Value.container?` what the
operations on containers see of it.  A named scalar has no kind, and is no element that can be
shown.
-/

namespace Colloquy

/-! ### Types of scalars -/

/-- The base types of scalars. -/
inductive Base where
  | double
  | single
  | text
  | truth
deriving DecidableEq, Repr

namespace Base

/-- What a scalar of a base type is made of. -/
abbrev Carrier : Base → Type
  | double => Double
  | single => Single
  | text => Text
  | truth => Bool

def name : Base → Text
  | double => "float64"
  | single => "float32"
  | text => "string"
  | truth => "bool"

/-- The kind of the scalars of a base type. -/
def kind : Base → Kind
  | double | single => .num
  | text => .str
  | truth => .bool

end Base

/-- **A type of scalars**: a base type, or a named type over it. -/
structure ScalarType where
  name? : Option Text
  base : Base
deriving DecidableEq, Repr

namespace ScalarType

abbrev Carrier (t : ScalarType) : Type := t.base.Carrier

def name (t : ScalarType) : Text := t.name?.getD t.base.name

end ScalarType

/-- A type of atoms: a type of scalars, or the integers. -/
inductive AtomType where
  | scalar (t : ScalarType)
  | int
deriving DecidableEq, Repr

namespace AtomType

abbrev Carrier : AtomType → Type
  | scalar t => t.Carrier
  | int => Int

def name : AtomType → Text
  | scalar t => t.name
  | int => "int"

end AtomType

/-! ### Other types -/

/-- **A datum** of a type of which nothing else is known: its text in one line, and its dump on each
level, which does not tell its type. -/
structure Datum where
  plain : Text
  dump : Nat → Text

/-- **The type of the items of a list**, which is no type of atoms.  An interface is a type that
values of other types have in common: each item is a value of a type that implements it, or nothing.
The items of a concrete type are values of that very type; it may take values of other types, which
it then has under its own name. -/
inductive ItemType where
  | interface (name : Text) (implementedBy : Text → Bool)
  | concrete (name : Text) (takes : Text → Bool)

namespace ItemType

def name : ItemType → Text
  | interface n _ => n
  | concrete n _ => n

/-- The interface that all types implement. -/
def any : ItemType := interface "interface \x7b\x7d" fun _ => true

end ItemType

/-! ### Values -/

/-- **A value.**  A vector, a queue or a stack may be missing altogether; it then counts as
empty. -/
inductive Value where
  | absent
  | atom (t : AtomType) (x : t.Carrier)
  | other (name : Text) (x : Datum)
  | slice (owner : Option Text) (t : AtomType) (items : Option (List t.Carrier))
  | list (owner : Option Text) (t : ItemType) (items : Option (List Value))
  | array (owner : Option Text) (t : ScalarType) (items : Option (List t.Carrier))
  | queue (t : ScalarType) (items : Option (Queue t.Carrier))
  | stack (t : ScalarType) (items : Option (Stack t.Carrier))
  | record (fields : List (Text × Value))
  | foreign (name : Text) (kind : Kind) (length : Int) (items : List Value)
  /-- The value `v` under the name of a type over its own. -/
  | named (name : Text) (v : Value)

namespace Value

/-- The scalar `x` of type `t`. -/
def scalar (t : ScalarType) (x : t.Carrier) : Value := .atom (.scalar t) x

/-- A number, as a program has it. -/
@[match_pattern] def num (x : Double) : Value := .atom (.scalar ⟨none, .double⟩) x

/-- A number of single precision. -/
@[match_pattern] def single (x : Single) : Value := .atom (.scalar ⟨none, .single⟩) x

/-- A string. -/
@[match_pattern] def str (t : Text) : Value := .atom (.scalar ⟨none, .text⟩) t

/-- A boolean. -/
@[match_pattern] def bool (b : Bool) : Value := .atom (.scalar ⟨none, .truth⟩) b

/-- An integer. -/
@[match_pattern] def int (n : Int) : Value := .atom .int n

/-- The name of the type of a value. -/
def typeName : Value → Text
  | absent => "<nil>"
  | atom t _ => t.name
  | other n _ => n
  | slice _ t _ => "[]" ++ t.name
  | list _ t _ => "[]" ++ t.name
  | array _ t _ => "container.Array[" ++ t.name ++ "]"
  | queue t _ => "*container.Queue[" ++ t.name ++ "]"
  | stack t _ => "*container.Stack[" ++ t.name ++ "]"
  | record _ => "map[string]" ++ ItemType.any.name
  | foreign n _ _ _ => n
  | named n _ => n

/-- A value without the names that its type is given.  An array is a slice by another name. -/
def bare : Value → Value
  | named _ v => v.bare
  | array o t items => slice o (.scalar t) items
  | v => v

/-- **A value under another name of its type.** -/
def under (name : Text) (v : Value) : Value :=
  match v.bare with
  | absent => named name absent
  | slice o (.scalar t) items =>
    if typeName (array o t items) = name then array o t items
    else if typeName (slice o (.scalar t) items) = name then slice o (.scalar t) items
    else named name (slice o (.scalar t) items)
  | w => if w.typeName = name then w else named name w

/-- **The kind of a value**; unknown for values that no declaration covers. -/
def kind : Value → Kind
  | atom (.scalar ⟨none, b⟩) _ => b.kind
  | slice _ (.scalar ⟨none, _⟩) _ => .array
  | array _ _ _ => .array
  | queue _ _ => .queue
  | stack _ _ => .stack
  | foreign _ k _ _ => k
  | _ => .unknown

end Value

/-! ### Containers -/

/-- **What is seen of a container**: its kind, its length, and its elements in the order in which
they are shown. -/
structure Container where
  value : Value
  kind : Kind
  length : Int
  elements : List Value

namespace Value

/-- A container of scalars of type `t`, which reports its length on its own. -/
def containerOf (t : ScalarType) (v : Value) (k : Kind) (length : Nat) (items : List t.Carrier) :
    Container :=
  ⟨v, k, length, items.map (scalar t)⟩

/-- **A value as a container.**  A slice of scalars of a base type is taken as an array; a foreign
container is taken at its word. -/
def container? : Value → Option Container
  | slice o (.scalar ⟨none, b⟩) items =>
    let xs := items.getD []
    some (containerOf ⟨none, b⟩ (array o ⟨none, b⟩ items) .array xs.length xs)
  | array o t items =>
    let xs := items.getD []
    some (containerOf t (array o t items) .array xs.length xs)
  | queue t q =>
    some (containerOf t (queue t q) .queue ((q.map Queue.length).getD 0)
      ((q.map Queue.elements).getD []))
  | stack t s =>
    some (containerOf t (stack t s) .stack ((s.map Stack.length).getD 0)
      ((s.map Stack.elements).getD []))
  | foreign n k l items => some ⟨foreign n k l items, k, l, items⟩
  | _ => none

end Value

end Colloquy
