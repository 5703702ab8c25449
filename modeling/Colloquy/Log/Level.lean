import Colloquy.Error
import Colloquy.Text.Lowercase

/-!
# Log levels

The levels of log entries, from the most to the least severe.  A log is kept at a level, and shows
the entries that are at least as severe.
-/

namespace Colloquy

/-- **The severity of a log entry.** -/
inductive Level where
  | panic
  | fatal
  | error
  | warning
  | info
  | debug
  | trace
deriving DecidableEq, Repr

namespace Level

/-- All levels, the most severe first. -/
def all : List Level := [panic, fatal, error, warning, info, debug, trace]

/-- How far a level is from the most severe one. -/
def rank : Level → Nat
  | panic => 0
  | fatal => 1
  | error => 2
  | warning => 3
  | info => 4
  | debug => 5
  | trace => 6

def name : Level → Text
  | panic => "panic"
  | fatal => "fatal"
  | error => "error"
  | warning => "warning"
  | info => "info"
  | debug => "debug"
  | trace => "trace"

/-- Whether a log at this level shows entries of the level `l`. -/
def shows (threshold l : Level) : Bool := l.rank ≤ threshold.rank

/-- The level with the given name in whatever case; warnings have a short name too. -/
def ofName? (n : Text) : Option Level :=
  let n := n.lower
  if n = "warn" then some warning else all.find? (·.name == n)

/-- **The level that a setting names**; warnings if it names none. -/
def ofSetting (n : Text) : Except Error Level :=
  if n.isEmpty then .ok warning
  else
    match ofName? n with
    | some l => .ok l
    | none => .error (.badLevel n)

end Level

end Colloquy
