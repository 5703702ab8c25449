import Colloquy.Console

/-!
# Registries

A registry holds builtins under their names.  A call goes through only if its context is still live,
the name is registered, and the number of arguments fits; then the builtin acts once on the
arguments.

An action may change its arguments, so a reply gives them back.
-/

namespace Colloquy

/-- **The reply to a call**: a value, an error if the call failed, the arguments as the call left
them, and the console. -/
structure Reply where
  value : Value
  error : Option Error
  arguments : List Value
  console : Console

/-- What a builtin does with its arguments. -/
abbrev Action := List Value → Console → Reply

/-- **A builtin.**  A negative `most` sets no limit. -/
structure Builtin where
  name : Text
  description : Text
  least : Int
  most : Int
  action : Option Action

namespace Builtin

/-- What keeps a builtin from being registered. -/
def fault? (b : Builtin) : Option BuiltinFault :=
  if b.name.isEmpty then some .unnamed
  else if b.action.isNone then some (.unimplemented b.name)
  else if b.least < 0 ∨ (0 ≤ b.most ∧ b.most < b.least) then some (.arity b.name b.least b.most)
  else none

/-- Whether a builtin takes `n` arguments. -/
def takes (b : Builtin) (n : Nat) : Bool := b.least ≤ n && (b.most < 0 || (n : Int) ≤ b.most)

end Builtin

/-- The context of a call: still live, or over for one of two reasons. -/
inductive Context where
  | live
  | cancelled
  | expired
deriving DecidableEq, Repr

namespace Context

def error? : Context → Option Error
  | live => none
  | cancelled => some .cancelled
  | expired => some .deadlineExceeded

end Context

/-- **A registry**: the builtins that are registered, in the order of their registration. -/
structure Registry where
  builtins : List Builtin

namespace Registry

/-- The registry without builtins. -/
def empty : Registry := ⟨[]⟩

/-- The builtin with a given name. -/
def find? (r : Registry) (name : Text) : Option Builtin := r.builtins.find? (·.name == name)

/-- **Registers a builtin.** -/
def register (r : Registry) (b : Option Builtin) : Except Error Unit × Registry :=
  match b with
  | none => (.error (.invalidBuiltin .missing), r)
  | some b =>
    match b.fault? with
    | some f => (.error (.invalidBuiltin f), r)
    | none =>
      if (r.find? b.name).isSome then (.error (.alreadyRegistered b.name), r)
      else (.ok (), ⟨r.builtins ++ [b]⟩)

/-- **Removes a builtin.** -/
def unregister (r : Registry) (name : Text) : Except Error Unit × Registry :=
  if (r.find? name).isSome then (.ok (), ⟨r.builtins.filter (·.name != name)⟩)
  else (.error (.notFound name), r)

/-- The builtin with a given name, or an error. -/
def get (r : Registry) (name : Text) : Except Error Builtin :=
  match r.find? name with
  | some b => .ok b
  | none => .error (.notFound name)

/-- Puts a builtin among builtins that are sorted by name. -/
def insert (b : Builtin) : List Builtin → List Builtin
  | [] => [b]
  | c :: cs => if Text.before c.name b.name then c :: insert b cs else b :: c :: cs

/-- **The builtins sorted by name.** -/
def list (r : Registry) : List Builtin := r.builtins.foldr insert []

/-- The log entry about a failed call. -/
def failure (name : Text) (e : Error) : Entry :=
  let told : List (Text × Value) := [("builtin", .str name), ("error", .str e.message)]
  match e.cause with
  | .outOfBounds _ position _ length =>
    let place : List (Text × Value) := [("position", .num position), ("len", .int length)]
    ⟨.debug, "index out of range", told ++ place⟩
  | _ => ⟨.debug, "builtin failed", told⟩

/-- The action that a call leads to, or the error that stops it. -/
def gate (r : Registry) (x : Context) (name : Text) (n : Nat) : Except Error Action :=
  match x.error?, r.find? name with
  | some e, _ => .error e
  | none, none => .error (.notFound name)
  | none, some b =>
    if b.takes n then
      match b.action with
      | some act => .ok act
      | none => .error (.invalidBuiltin (.unimplemented name))
    else .error (.wrongArity b.name b.least b.most n)

/-- **Calls a builtin.**  A failed call gives no value, whatever the builtin gave. -/
def call (r : Registry) (x : Context) (name : Text) (args : List Value) (c : Console) : Reply :=
  match r.gate x name args.length with
  | .error e => ⟨.absent, some e, args, c⟩
  | .ok act =>
    let reply := act args c
    match reply.error with
    | none => reply
    | some e => { reply with value := .absent, console := reply.console.log [failure name e] }

end Registry

end Colloquy
