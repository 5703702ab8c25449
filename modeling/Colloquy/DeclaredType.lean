import Colloquy.Error
import Colloquy.Text.Blank

/-!
# Declared types

A declaration names the kind of a scalar, or a kind of container and the kind of its elements.
Reading a declaration and writing one are inverse on the types that can be declared.
-/

namespace Colloquy

/-- **A declared type.**  A plain scalar has the unknown kind for its container. -/
structure DeclaredType where
  container : Kind
  elem : Kind
deriving DecidableEq, Repr

namespace DeclaredType

/-- A declared type as a declaration writes it. -/
def text (t : DeclaredType) : Text :=
  if t.container = .unknown then t.elem.name else t.container.name ++ " " ++ t.elem.name

/-- The declared type with the given names, each of which is looked up on a walk of its own. -/
def ofNames? (first second : Kind.Walk) : List Text → Option DeclaredType
  | [e] => do
    let e ← (first.ofName? e).filter Kind.isScalar
    pure ⟨.unknown, e⟩
  | [c, e] => do
    let c ← (first.ofName? c).filter Kind.isContainer
    let e ← (second.ofName? e).filter Kind.isScalar
    pure ⟨c, e⟩
  | _ => none

/-- Reads a declaration, where the names of kinds are looked up on the given walks. -/
def parseAlong (first second : Kind.Walk) (t : Text) : Except Error DeclaredType :=
  match ofNames? first second t.fields with
  | some d => .ok d
  | none => .error (.unknownType t)

/-- **Reads a declaration**: one or two names, divided by blanks. -/
def parse (t : Text) : Except Error DeclaredType := parseAlong .listed .listed t

end DeclaredType

end Colloquy
