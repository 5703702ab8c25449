import Colloquy.Error

/-!
# Indexing

Elements are read and replaced by a position that is any floating-point number.  It is rounded to
the nearest integer, a half away from zero, and has to fall on an element.

Beside the operations on a list (`Indexing.get`, `Indexing.set`) stand those on a value that may or
may not be a vector (`Value.index`, `Value.setIndex`), which go by what is seen of it as one
(`Value.vector?`).  The latter take whatever can be assigned to the elements: a value of their very
type, a value of another type that an item takes, and a number of another width or name, which is
converted.  A value that cannot be stored is refused before the position is looked at.

A foreign container is no vector, since nothing is known of how it keeps its elements.  So foreign
containers that are slices themselves, and claim to be arrays, are not covered here.
-/

namespace Colloquy

namespace Indexing

/-- The index that an error reports for a rounded position: zero unless its size is below the bound
of sixty-four bits. -/
def reported (r : Int) : Int := if r.natAbs < 0x8000000000000000 then r else 0

/-- **The index of a position** in a vector of length `n`.  The length is compared as a
floating-point number. -/
def resolve (op : Text) (position : Double) (n : Nat) : Except Error Nat :=
  match position.round? with
  | none => .error (.outOfBounds op position 0 n)
  | some r =>
    if r < 0 ∨ (Format.double.roundNat n : Int) ≤ r then
      .error (.outOfBounds op position (reported r) n)
    else .ok r.toNat

variable {α : Type}

/-- The element at an index that was resolved.  No index beyond the end is ever resolved. -/
def element (op : Text) (position : Double) (xs : List α) (i : Nat) : Except Error α :=
  match xs[i]? with
  | some x => .ok x
  | none => .error (.outOfBounds op position i xs.length)

/-- **Reads** the element at a position. -/
def get (xs : List α) (position : Double) : Except Error α := do
  let i ← resolve "get" position xs.length
  element "get" position xs i

/-- **Replaces** the element at a position.  Gives the element that was there, and the vector after
the replacement. -/
def set (xs : List α) (position : Double) (x : α) : Except Error (α × List α) := do
  let i ← resolve "set" position xs.length
  let old ← element "set" position xs i
  pure (old, xs.set i x)

end Indexing

/-! ### Elements -/

/-- A number of one type as a number of another. -/
def AtomType.convert? : (t u : AtomType) → u.Carrier → Option t.Carrier
  | scalar ⟨_, .double⟩, scalar ⟨_, .double⟩, x => some x
  | scalar ⟨_, .double⟩, scalar ⟨_, .single⟩, x => some (Binary.convert x)
  | scalar ⟨_, .single⟩, scalar ⟨_, .double⟩, x => some (Binary.convert x)
  | scalar ⟨_, .single⟩, scalar ⟨_, .single⟩, x => some x
  | _, _, _ => none

/-- What an item of a list is if a value is assigned to it: the value as it is, under its own type or
under that of the items. -/
def ItemType.keep? : ItemType → Value → Option Value
  | interface _ implementedBy, v => if implementedBy v.typeName then some v else none
  | concrete n takes, v =>
    if v.typeName = n then some v
    else if takes v.typeName then some (v.under n)
    else none

/-- **The type of the elements of a vector.** -/
inductive ElementType where
  | atom (t : AtomType)
  | item (t : ItemType)

namespace ElementType

abbrev Carrier : ElementType → Type
  | atom t => t.Carrier
  | item _ => Value

/-- An element as a value. -/
def value : (t : ElementType) → t.Carrier → Value
  | atom t, x => .atom t x
  | item _, v => v

/-- A value as an element, if it can be assigned to one. -/
def assign? : (t : ElementType) → Value → Option t.Carrier
  | atom t, .atom u x => if h : u = t then some (h ▸ x) else none
  | item t, v => t.keep? v
  | _, _ => none

/-- A number as an element, if the elements are numbers. -/
def convert? : (t : ElementType) → Value → Option t.Carrier
  | atom t, .atom u x => t.convert? u x
  | _, _ => none

end ElementType

/-! ### Vectors -/

/-- **What is seen of a vector**: its elements, all of one type, and the vector that it becomes with
others in their place. -/
structure Vector where
  type : ElementType
  items : List type.Carrier
  rebuild : List type.Carrier → Value

namespace Value

/-- **A value as a vector.**  The vector that it becomes keeps its owner and the name of its
type. -/
def vector? : Value → Option Vector
  | slice o t xs => some ⟨.atom t, xs.getD [], fun ys => slice o t (some ys)⟩
  | array o t xs => some ⟨.atom (.scalar t), xs.getD [], fun ys => array o t (some ys)⟩
  | list o t vs => some ⟨.item t, vs.getD [], fun ws => list o t (some ws)⟩
  | named n v => v.vector?.map fun s => ⟨s.type, s.items, fun ys => named n (s.rebuild ys)⟩
  | _ => none

/-- What is stored for the value `v` in the vector `vec`, whose elements are of type `t`. -/
def storable (vec : Value) (t : ElementType) : Value → Except Error t.Carrier
  | absent => .error (.unsupported "index" absent)
  | v =>
    match (t.assign? v).or (t.convert? v) with
    | some x => .ok x
    | none =>
      .error (.within ("cannot store " ++ v.typeName ++ " in " ++ vec.typeName)
        (.unsupported "index" v))

/-- **Reads** the element of a value at a position. -/
def index (vec : Value) (position : Double) : Except Error Value :=
  match vec.vector? with
  | none => .error (.unsupported "index" vec)
  | some s => do
    let i ← Indexing.resolve "get" position s.items.length
    let x ← Indexing.element "get" position s.items i
    pure (s.type.value x)

/-- **Replaces** the element of a value at a position.  Gives the element that was there, and the
value after the replacement. -/
def setIndex (vec : Value) (position : Double) (v : Value) : Except Error (Value × Value) :=
  match vec.vector? with
  | none => .error (.unsupported "index" vec)
  | some s => do
    let x ← storable vec s.type v
    let i ← Indexing.resolve "set" position s.items.length
    let old ← Indexing.element "set" position s.items i
    pure (s.type.value old, s.rebuild (s.items.set i x))

end Value

end Colloquy
