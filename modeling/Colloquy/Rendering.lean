import Colloquy.Error
import Colloquy.Text.Glyph

/-!
# Renderings

The text that a program says for a value, and the length that it counts.  Scalars of a base type are
rendered, and containers of such scalars.  A container is its elements between brackets with a
separator between neighbours.  In the terminal style every element is followed by the separator, and
two backspaces take the cursor back over the last one.
-/

namespace Colloquy

/-- How the closing bracket of a container comes to stand after its last element. -/
inductive Style where
  | plain
  /-- By moving the cursor of a terminal. -/
  | terminal
deriving DecidableEq, Repr

namespace Base

/-- The rendering of a scalar. -/
def render : (b : Base) → b.Carrier → Text
  | double, x => Binary.text x
  | single, x => Binary.text x
  | text, t => t
  | truth, b => Text.ofBool b

end Base

namespace Value

/-- The rendering of a scalar of a base type. -/
def renderScalar? : Value → Option Text
  | atom (.scalar ⟨none, b⟩) x => some (b.render x)
  | _ => none

/-- What stands between the elements of a container. -/
def separator : Text := ", "

/-- The renderings of elements as a container shows them. -/
def enclose : Style → List Text → Text
  | .plain, ts => "[" ++ Text.join separator ts ++ "]"
  | .terminal, ts => "[" ++ ts.flatMap (· ++ separator) ++ "\x08\x08" ++ "]"

/-- The renderings of elements, all of which have to be scalars. -/
def renderElements : List Value → Except Error (List Text)
  | [] => .ok []
  | v :: vs =>
    match v.renderScalar? with
    | some t => (renderElements vs).map (t :: ·)
    | none => .error (.unsupported "say" v)

/-- **The rendering of a value.** -/
def render (style : Style) (v : Value) : Except Error Text :=
  match v.renderScalar? with
  | some t => .ok t
  | none =>
    match v.container? with
    | some c => (renderElements c.elements).map (enclose style)
    | none => .error (.unsupported "say" v)

/-- The rendering of a value away from a terminal. -/
def format (v : Value) : Except Error Text := v.render .plain

/-- **The length of a value**: the glyphs of a string, or the elements of a container. -/
def length : Value → Except Error Int
  | str t => .ok t.glyphs.length
  | v =>
    match v.container? with
    | some c => .ok c.length
    | none => .error (.unsupported "len" v)

end Value

end Colloquy
