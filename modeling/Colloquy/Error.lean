import Colloquy.CommandLine.UsageError
import Colloquy.Number.Decimal
import Colloquy.Value.Basic

/-!
# Errors

Everything that can go wrong, by its cause.  `Error.message` has the wording of all causes, and
`Error.cause` looks through what was put around a cause on its way up.
-/

namespace Colloquy

/-- What a builtin lacks that cannot be registered. -/
inductive BuiltinFault where
  | missing
  | unnamed
  | unimplemented (name : Text)
  | arity (name : Text) (least most : Int)
deriving DecidableEq, Repr

/-- **An error.** -/
inductive Error where
  /-- The position `position`, rounded to `index`, lies outside a vector of the given length. -/
  | outOfBounds (op : Text) (position : Double) (index length : Int)
  /-- The operation does not take this value. -/
  | unsupported (op : Text) (value : Value)
  | wrongArity (name : Text) (least most got : Int)
  | unknownType (declaration : Text)
  | emptyContainer
  | notFound (name : Text)
  | alreadyRegistered (name : Text)
  | invalidBuiltin (fault : BuiltinFault)
  | writeFailed
  | endOfInput
  | cancelled
  | deadlineExceeded
  /-- A literal that looks like an array or a record, but cannot be read. -/
  | malformed
  /-- A literal asks for a container of this kind, but holds no array. -/
  | notAnArray (kind : Kind)
  | badElements
  | mixedElements (index : Nat) (found wanted : Kind)
  | badLevel (name : Text)
  | usage (fault : UsageError)
  /-- An error of which nothing is known but its text. -/
  | other (text : Text)
  /-- An error met while doing what `context` says. -/
  | within (context : Text) (error : Error)

namespace BuiltinFault

def message : BuiltinFault → Text
  | missing => "builtin cannot be nil"
  | unnamed => "name is required"
  | unimplemented n => n ++ " has no implementation"
  | arity n least most => n ++ " has arity " ++ Text.ofInt least ++ ".." ++ Text.ofInt most

end BuiltinFault

namespace Error

/-- What all positions outside a vector have in common. -/
def outOfBoundsText : Text := "index out of bounds"

/-- What all values that an operation does not take have in common. -/
def unsupportedText : Text := "unsupported value"

/-- What all calls with a wrong number of arguments have in common. -/
def wrongArityText : Text := "wrong number of arguments"

/-- How many arguments a builtin expects. -/
def arityText (least most : Int) : Text :=
  if most < 0 then "at least " ++ Text.ofInt least
  else if least = most then Text.ofInt least
  else Text.ofInt least ++ " to " ++ Text.ofInt most

/-- The index to which a position was rounded, if it is the one that the error gives. -/
def roundedText (position : Double) (index : Int) : Text :=
  if position.round? = some (Format.double.roundInt index) then
    " (rounded to " ++ Text.ofInt index ++ ")"
  else []

/-- **The text of an error.** -/
def message : Error → Text
  | outOfBounds op x i n =>
    op ++ " index " ++ x.exactText ++ roundedText x i ++ " with length " ++ Text.ofInt n ++ ": " ++
      outOfBoundsText
  | unsupported op v => op ++ ": " ++ unsupportedText ++ " of type " ++ v.typeName
  | wrongArity n least most got =>
    n ++ " expects " ++ arityText least most ++ " arguments, got " ++ Text.ofInt got ++ ": " ++
      wrongArityText
  | unknownType t => "unknown type: " ++ t.quoted
  | emptyContainer => "container is empty"
  | notFound n => "builtin not found: " ++ n.quoted
  | alreadyRegistered n => "builtin already registered: " ++ n.quoted
  | invalidBuiltin f => "invalid builtin: " ++ f.message
  | writeFailed => "write failed"
  | endOfInput => "EOF"
  | cancelled => "context canceled"
  | deadlineExceeded => "context deadline exceeded"
  | malformed => []
  | notAnArray k => k.name ++ " needs an array"
  | badElements => "elements must be num, str or bool"
  | mixedElements i found wanted =>
    "element " ++ Text.ofNat i ++ " is " ++ found.name ++ ", want " ++ wanted.name
  | badLevel n =>
    "invalid log level " ++ n.quoted ++ ": not a valid logrus Level: " ++ n.quoted
  | usage u => u.message
  | other t => t
  | within c e => c ++ ": " ++ e.message

/-- **The cause of an error**, without the contexts in which it was met. -/
def cause : Error → Error
  | within _ e => e.cause
  | e => e

end Error

end Colloquy
