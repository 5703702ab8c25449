import Colloquy.Registry

/-!
# Variables

A program keeps values in variables and hands them to builtins.  The vector of a variable is one and
the same vector wherever it is held: a list that took it up, or a record or a foreign container in
such a list, shows every later change of it.

So the vector of a variable bears the name of the variable as its owner (`Value.ownedBy`), and after
a call all vectors of that owner become what the call left (`Value.renew`).  A list cannot hold
itself: what it takes up is the vector as it was.
-/

namespace Colloquy

namespace Value

/-- The variable that a value belongs to: only vectors belong to one. -/
def owner? : Value → Option Text
  | slice o _ _ => o
  | list o _ _ => o
  | array o _ _ => o
  | named _ v => v.owner?
  | _ => none

/-- A vector as the vector of a variable. -/
def ownedBy (name : Text) : Value → Value
  | slice _ t xs => slice (some name) t xs
  | list _ t vs => list (some name) t vs
  | array _ t xs => array (some name) t xs
  | named n v => named n (v.ownedBy name)
  | v => v

mutual

/-- **A value after a change** of the vector with owner `name`, which is now `new`.  Wherever it is
held, it is held under the type that it was taken up with. -/
def renew (name : Text) (new : Value) : Value → Value
  | slice o t xs => if o = some name then new.under (typeName (slice o t xs)) else slice o t xs
  | array o t xs => if o = some name then new.under (typeName (array o t xs)) else array o t xs
  | list o t none => if o = some name then new.under (typeName (list o t none)) else list o t none
  | list o t (some vs) =>
    if o = some name then new.under (typeName (list o t none))
    else list o t (some (renewAll name new vs))
  | record fs => record (renewFields name new fs)
  | foreign n k l vs => foreign n k l (renewAll name new vs)
  | named n v => named n (renew name new v)
  | v => v

/-- Each value after the change. -/
def renewAll (name : Text) (new : Value) : List Value → List Value
  | [] => []
  | v :: vs => renew name new v :: renewAll name new vs

/-- Each field after the change. -/
def renewFields (name : Text) (new : Value) : List (Text × Value) → List (Text × Value)
  | [] => []
  | (n, v) :: fs => (n, renew name new v) :: renewFields name new fs

end

end Value

/-- The values of variables. -/
abbrev Variables := List (Text × Value)

namespace Variables

/-- Adds a variable.  If its value is a vector, the vector belongs to it from now on. -/
def declare (vars : Variables) (name : Text) (v : Value) : Variables :=
  vars ++ [(name, v.ownedBy name)]

/-- The value of a variable; an unknown variable has none. -/
def get (vars : Variables) (name : Text) : Value := (vars.lookup name).getD .absent

/-- The variables after a call that left the value `v` as one of its arguments. -/
def renew (vars : Variables) (v : Value) : Variables :=
  match v.owner? with
  | some name => vars.map fun x => (x.1, Value.renew name v x.2)
  | none => vars

end Variables

namespace Registry

/-- **Calls a builtin on values of variables.**  The first argument counts last: it is the one that
a call may change. -/
def callOn (r : Registry) (vars : Variables) (x : Context) (name : Text) (args : List Value)
    (c : Console) : Reply × Variables :=
  let reply := r.call x name args c
  (reply, reply.arguments.foldr (fun v vars => vars.renew v) vars)

end Registry

end Colloquy
