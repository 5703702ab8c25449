import Colloquy.Error
import Colloquy.Json.Reader
import Colloquy.Text.Blank

/-!
# Literals

The values that can be given on a command line.  A literal is a JSON text: a number, a string, a
boolean or an array of one of those.  With `q:` or `s:` before it, an array stands for a queue or a
stack.  A text that is no JSON is a string by itself, unless it looks like an array or an object.
-/

namespace Colloquy

namespace Literal

/-- What the items of an array are put into. -/
inductive Shape where
  | array
  | queue
  | stack
deriving DecidableEq, Repr

namespace Shape

def kind : Shape → Kind
  | array => .array
  | queue => .queue
  | stack => .stack

/-- Scalars of a base type in a container of this shape. -/
def hold (b : Base) (xs : List b.Carrier) : Shape → Value
  | array => .slice none (.scalar ⟨none, b⟩) (some xs)
  | queue => .queue ⟨none, b⟩ (some (.ofList xs))
  | stack => .stack ⟨none, b⟩ (some (.ofList xs))

end Shape

/-- The shape that a literal asks for, and the text that follows. -/
def split : Text → Shape × Text
  | 113 :: 58 :: t => (.queue, t)
  | 115 :: 58 :: t => (.stack, t)
  | t => (.array, t)

/-- Whether a text starts like an array or an object, after blanks. -/
def looksEnclosed (t : Text) : Bool :=
  match t.trimStart with
  | b :: _ => b == 91 || b == 123
  | [] => false

/-- An item of an array as a scalar of a base type. -/
def cast? : (b : Base) → Json → Option b.Carrier
  | .double, .number x => some x
  | .text, .string t => some t
  | .truth, .bool b => some b
  | _, _ => none

/-- The items of an array, numbered from `i`, as scalars of one base type. -/
def collect (b : Base) : Nat → List Json → Except Error (List b.Carrier)
  | _, [] => .ok []
  | i, j :: js =>
    match cast? b j with
    | some x => (collect b (i + 1) js).map (x :: ·)
    | none => .error (.mixedElements i j.kind b.kind)

/-- The base type that the first item of an array settles.  An empty array is one of numbers. -/
def baseOf? : List Json → Option Base
  | [] => some .double
  | .number _ :: _ => some .double
  | .string _ :: _ => some .text
  | .bool _ :: _ => some .truth
  | _ => none

/-- **The container with the items of an array.** -/
def build (shape : Shape) (js : List Json) : Except Error Value :=
  match baseOf? js with
  | some b => (collect b 0 js).map fun xs => shape.hold b xs
  | none => .error .badElements

/-- The value that a JSON value stands for under a shape. -/
def interpret : Shape → Json → Except Error Value
  | .array, .array js => build .array js
  | .array, .number x => .ok (.num x)
  | .array, .string t => .ok (.str t)
  | .array, .bool b => .ok (.bool b)
  | .array, j => .error (.unsupported "parse" j.toValue)
  | shape, .array js => build shape js
  | shape, _ => .error (.notAnArray shape.kind)

/-- The value of a literal, where `decode` tells what a JSON text denotes. -/
def parseWith (decode : Text → Option Json) (t : Text) : Except Error Value :=
  let (shape, body) := split t
  match decode body with
  | none =>
    if looksEnclosed body then .error (.within ("invalid literal " ++ t.quoted) .malformed)
    else .ok (.str t)
  | some j => (interpret shape j).mapError (.within ("invalid literal " ++ t.quoted))

/-- **The value of a literal.** -/
def parse (t : Text) : Except Error Value := parseWith Json.read? t

end Literal

end Colloquy
