import Colloquy.Indexing
import Colloquy.Printer
import Colloquy.Registry

/-!
# The builtins of every program

`say` and `ask` talk through a printer, `index` reads or replaces an element of a vector, and `len`
counts.
-/

namespace Colloquy

namespace Builtin

/-- A reply that leaves arguments and console as they are. -/
def answer (args : List Value) (c : Console) : Except Error Value → Reply
  | .ok v => ⟨v, none, args, c⟩
  | .error e => ⟨.absent, some e, args, c⟩

/-- Prints its arguments. -/
def say (p : Printer) : Builtin where
  name := "say"
  description := "Print numbers, strings, booleans and containers"
  least := 1
  most := -1
  action := some fun args c =>
    let (r, c) := p.say args c
    answer args c (r.map fun _ => .absent)

/-- Prints its arguments and gives the line that is then read. -/
def ask (p : Printer) : Builtin where
  name := "ask"
  description := "Print a prompt and read a line of input"
  least := 0
  most := -1
  action := some fun args c =>
    let (r, c) := p.ask args c
    answer args c (r.map .str)

/-- A value as the position of an element. -/
def position : Value → Except Error Double
  | .num x => .ok x
  | .single x => .ok x.convert
  | v => .error (.within "position" (.unsupported "index" v))

/-- What `index` does: with two arguments it reads, with three it replaces. -/
def indexAction : Action
  | [vec, x], c => answer [vec, x] c (position x >>= vec.index)
  | [vec, x, v], c =>
    match position x >>= fun x => vec.setIndex x v with
    | .ok (old, vec) => ⟨old, none, [vec, x, v], c⟩
    | .error e => ⟨.absent, some e, [vec, x, v], c⟩
  | args, c => ⟨.absent, none, args, c⟩

/-- Reads an element of a vector, or replaces it and gives what was there. -/
def index : Builtin where
  name := "index"
  description := "Read or replace an array element by rounded position"
  least := 2
  most := 3
  action := some indexAction

/-- What `len` does. -/
def lenAction : Action
  | [v], c => answer [v] c (v.length.map fun n => .num (.ofInt n))
  | args, c => ⟨.absent, none, args, c⟩

/-- Gives the length of its argument as a number. -/
def len : Builtin where
  name := "len"
  description := "Length of a string or container"
  least := 1
  most := 1
  action := some lenAction

/-- The builtins of every program, in the order of their registration. -/
def defaults (p : Printer) : List Builtin := [say p, ask p, index, len]

end Builtin

namespace Registry

/-- Registers builtins in order, up to the first that is refused. -/
def registerAll (r : Registry) : List Builtin → Except Error Unit × Registry
  | [] => (.ok (), r)
  | b :: bs =>
    match r.register (some b) with
    | (.ok (), r) => r.registerAll bs
    | (.error e, r) => (.error (.within ("failed to register builtin " ++ b.name.quoted) e), r)

/-- **Registers the builtins of every program.** -/
def registerDefaults (r : Registry) (p : Printer) : Except Error Unit × Registry :=
  r.registerAll (Builtin.defaults p)

end Registry

end Colloquy
