import Colloquy.Log.Level
import Colloquy.Text.Quoted
import Colloquy.Value.Plain

/-!
# Log entries

An entry is written as one line of `key=value` pairs: the level, the message, and the fields of the
entry sorted by key.  A value is quoted unless it is made of letters, digits and a few signs.  What
becomes of the lines is up to the logger.
-/

namespace Colloquy

/-- **A log entry.** -/
structure Entry where
  level : Level
  message : Text
  fields : List (Text × Value)

namespace Entry

/-- Sets the field `key`. -/
def put (key : Text) (v : Value) : List (Text × Value) → List (Text × Value)
  | [] => [(key, v)]
  | f :: fs => if f.1 = key then (key, v) :: fs else f :: put key v fs

/-- The keys that an entry writes by itself. -/
def reserved : List Text := ["time", "msg", "level", "logrus_error"]

/-- Moves a field out of the way of a reserved key. -/
def rename (fs : List (Text × Value)) (key : Text) : List (Text × Value) :=
  match fs.lookup key with
  | some v => (put ("fields." ++ key) v fs).filter (·.1 != key)
  | none => fs

/-- Puts a field among fields that are sorted by key. -/
def insert (f : Text × Value) : List (Text × Value) → List (Text × Value)
  | [] => [f]
  | g :: gs => if Text.before g.1 f.1 then g :: insert f gs else f :: g :: gs

/-- The fields as they are written: each under a key of its own, sorted by key. -/
def written (e : Entry) : List (Text × Value) :=
  let fs := e.fields.foldl (fun fs f => put f.1 f.2 fs) []
  (reserved.foldl rename fs).foldr insert []

/-- Whether a byte needs no quotes around it. -/
def isBare (b : UInt8) : Bool :=
  (97 ≤ b && b ≤ 122) || (65 ≤ b && b ≤ 90) || (48 ≤ b && b ≤ 57) ||
    b == 45 || b == 46 || b == 95 || b == 47 || b == 64 || b == 94 || b == 43

/-- A text as the value of a pair. -/
def pairText (t : Text) : Text := if t.all isBare then t else t.quoted

/-- A pair. -/
def pair (key value : Text) : Text := key ++ "=" ++ pairText value

/-- **An entry as a line.** -/
def line (e : Entry) : Text :=
  let message := if e.message.isEmpty then [] else [pair "msg" e.message]
  let fields := e.written.map fun f => pair f.1 f.2.plain
  Text.join " " (pair "level" e.level.name :: message ++ fields) ++ "\n"

end Entry

namespace Log

/-- **What a log shows**: the lines of the entries that are severe enough. -/
def text (threshold : Level) (es : List Entry) : Text :=
  (es.filter fun e => threshold.shows e.level).flatMap Entry.line

end Log

/-- **A logger**: the level at which its log is kept, and whether the log arrives anywhere. -/
structure Logger where
  level : Level
  arrives : Bool
deriving DecidableEq, Repr

namespace Logger

/-- The logger that a setting asks for. -/
def ofSetting (n : Text) : Except Error Logger := (Level.ofSetting n).map (⟨·, true⟩)

/-- The logger of whoever was given none: all that it logs is dropped. -/
def discard : Logger := ⟨.info, false⟩

/-- What a logger shows of entries. -/
def text (g : Logger) (es : List Entry) : Text := if g.arrives then Log.text g.level es else []

end Logger

end Colloquy
