import Colloquy.Console
import Colloquy.Rendering
import Colloquy.Value.Dump

/-!
# Printers

A printer says values on a console and asks for lines.  All values of one call are written at once.
A value that has no rendering is left out with a warning; a strict printer says nothing at all then.
-/

namespace Colloquy

/-- **A printer**, by its settings. -/
structure Printer where
  style : Style
  strict : Bool
deriving DecidableEq, Repr

namespace Printer

/-- The warning about a value that is left out. -/
def skipped (v : Value) (e : Error) : Entry :=
  ⟨.warning, "say: skipping value", [("error", .str e.message), ("value", .str v.dump)]⟩

/-- Whether an entry is one that printers log. -/
def logs (e : Entry) : Bool := e.level == .warning && e.message == "say: skipping value"

/-- **What loggers show** of entries: `own` is the logger of the printer, and `g` that of everyone
else. -/
def logText (own g : Logger) (es : List Entry) : Text :=
  es.flatMap fun e => (if logs e then own else g).text [e]

/-- The renderings of values, one after the other, and the warnings about those without one. -/
def compose (p : Printer) : List Value → Except Error (Text × List Entry)
  | [] => .ok ([], [])
  | v :: vs =>
    match v.render p.style with
    | .ok t => (compose p vs).map fun r => (t ++ r.1, r.2)
    | .error e =>
      if p.strict then .error e else (compose p vs).map fun r => (r.1, skipped v e :: r.2)

/-- **Says values.** -/
def say (p : Printer) (vs : List Value) (c : Console) : Except Error Unit × Console :=
  match p.compose vs with
  | .ok (t, es) => (c.log es).write t
  | .error e => (.error e, c)

/-- **Asks for a line**: says the prompt, then reads. -/
def ask (p : Printer) (prompt : List Value) (c : Console) : Except Error Text × Console :=
  match p.say prompt c with
  | (.ok (), c) => c.readLine
  | (.error e, c) => (.error e, c)

end Printer

end Colloquy
