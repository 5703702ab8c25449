import Colloquy.Log.Entry

/-!
# Consoles

What a program talks to: the text that it can read, the writes that it makes, and the entries that
it logs.  Any write may fail, and the text may end in a fault instead of its proper end.
-/

namespace Colloquy

/-- **A text to read**: what is left of it, and the error that meets whoever reads beyond it. -/
structure Input where
  rest : Text
  ending : Error

namespace Input

/-- A text that ends properly. -/
def ofText (t : Text) : Input := ⟨t, .endOfInput⟩

/-- The bytes that end a line. -/
def isLineEnd (b : UInt8) : Bool := b == 10 || b == 13

/-- The first line with its line feed, and the rest; nothing if there is no line feed. -/
def line? : Text → Option (Text × Text)
  | [] => none
  | b :: t => if b = 10 then some ([10], t) else (line? t).map fun p => (b :: p.1, p.2)

/-- Whether the text ends properly, in whatever contexts its end is reported. -/
def endsProperly (i : Input) : Bool :=
  match i.ending.cause with
  | .endOfInput => true
  | _ => false

/-- **Reads a line.**  All line feeds and carriage returns at its end are dropped.  A last line
without a line feed counts as a line if the text ends properly, and is lost otherwise. -/
def readLine (i : Input) : Except Error Text × Input :=
  match line? i.rest with
  | some (l, t) => (.ok (l.trimEnd isLineEnd), { i with rest := t })
  | none =>
    let after := { i with rest := [] }
    if i.endsProperly && !i.rest.isEmpty then (.ok (i.rest.trimEnd isLineEnd), after)
    else (.error i.ending, after)

end Input

/-- **A console**: what can be read, which writes will fail, and what was written and logged so far,
each in order.  `fault n` is the error that meets the write with number `n`, if that write fails; a
write that failed is recorded like any other. -/
structure Console where
  input : Option Input
  fault : Nat → Option Error
  writes : List Text
  entries : List Entry

namespace Console

/-- A console on which nothing has been written or logged, and on which all writes succeed or all
fail. -/
def new (input : Option Input) (works : Bool) : Console :=
  ⟨input, fun _ => if works then none else some .writeFailed, [], []⟩

/-- The console without the record of what was written and logged. -/
def cleared (c : Console) : Console :=
  { c with fault := fun n => c.fault (c.writes.length + n), writes := [], entries := [] }

/-- What has arrived of the writes. -/
def output (c : Console) : Text :=
  (c.writes.zipIdx.filter fun w => (c.fault w.2).isNone).flatMap Prod.fst

/-- **Writes a text.** -/
def write (c : Console) (t : Text) : Except Error Unit × Console :=
  (match c.fault c.writes.length with
    | none => .ok ()
    | some e => .error e,
    { c with writes := c.writes ++ [t] })

/-- Logs entries. -/
def log (c : Console) (es : List Entry) : Console := { c with entries := c.entries ++ es }

/-- Reads a line.  Without a text to read, it is at its end. -/
def readLine (c : Console) : Except Error Text × Console :=
  match c.input with
  | none => (.error .endOfInput, c)
  | some i => (i.readLine.1, { c with input := some i.readLine.2 })

end Console

end Colloquy
