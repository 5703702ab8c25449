import Colloquy.CommandLine.Flag
import Colloquy.CommandLine.Suggestion

/-!
# Commands

The subcommands of the program, the flags and the number of arguments that each of them takes, and
how a list of arguments is read as one of them.
-/

namespace Colloquy

/-- The shells that can complete command lines. -/
inductive Shell where
  | bash
  | zsh
  | fish
  | powershell
deriving DecidableEq, Repr

namespace Shell

def all : List Shell := [bash, zsh, fish, powershell]

def name : Shell → Text
  | bash => "bash"
  | zsh => "zsh"
  | fish => "fish"
  | powershell => "powershell"

end Shell

/-- **A command**: the program itself, a subcommand of it, or the completion script for a shell,
which is a subcommand of `completion`. -/
inductive Command where
  | program
  | say
  | index
  | len
  | ask
  | list
  | version
  | help
  | completion
  | script (shell : Shell)
deriving DecidableEq, Repr

namespace Command

def name : Command → Text
  | program => "biro-cli"
  | say => "say"
  | index => "index"
  | len => "len"
  | ask => "ask"
  | list => "list"
  | version => "version"
  | help => "help"
  | completion => "completion"
  | script shell => shell.name

/-- The name of a command after the names of those that it belongs to. -/
def path : Command → Text
  | program => program.name
  | script shell => program.name ++ " " ++ completion.name ++ " " ++ shell.name
  | c => program.name ++ " " ++ c.name

/-- The subcommands of a command. -/
def subcommands : Command → List Command
  | program => [say, index, len, ask, list, version, help, completion]
  | completion => Shell.all.map script
  | _ => []

/-- The names of subcommands that `typed` may have been meant for.  The one for help is not
suggested. -/
def suggestions (typed : Text) : List Text :=
  ((program.subcommands.filter (· != help)).map name).filter (Suggestion.resembles typed)

/-- The flags that a command does not share with all others. -/
def ownFlags : Command → List Flag
  | say => [Flag.noNewline]
  | script _ => [Flag.noDescriptions]
  | _ => []

/-- The flags of a command. -/
def flags (c : Command) : List Flag := c.ownFlags ++ Flag.shared ++ [Flag.help]

/-- Whether the flags of a command may follow its other arguments.  Where arguments are values that
may start with a dash, they may not. -/
def interspersed : Command → Bool
  | say | index => false
  | _ => true

/-- Checks the number of arguments. -/
def checkCount (c : Command) (args : List Text) : Except UsageError Unit :=
  let n := args.length
  match c, args with
  | say, _ => if n < 1 then .error (.tooFew 1 n) else .ok ()
  | index, _ => if n < 2 ∨ 3 < n then .error (.outside 2 3 n) else .ok ()
  | len, _ => if n ≠ 1 then .error (.notExactly 1 n) else .ok ()
  | list, a :: _ => .error (.unknownCommand a c.path [])
  | version, a :: _ => .error (.unknownCommand a c.path [])
  | script _, a :: _ => .error (.unknownCommand a c.path [])
  | _, _ => .ok ()

/-- The subcommand of `c` that a word names, with the arguments that are left without it; or `c`
itself with all arguments. -/
def enter (c : Command) (w : Text) (args : List Text) : Command × List Text :=
  match c.subcommands.find? (·.name == w) with
  | some d => (d, Flag.dropWord Flag.shared w args)
  | none => (c, args)

/-- **Looks for the subcommand** among arguments.  Gives it with the arguments that are left.  A
subcommand of the program may have subcommands of its own. -/
def locate (args : List Text) : Except UsageError (Command × List Text) :=
  match Flag.words Flag.shared args with
  | [] => .ok (program, args)
  | w :: _ =>
    match program.enter w args with
    | (program, _) => .error (.unknownCommand w program.path (suggestions w))
    | (c, rest) =>
      match Flag.words Flag.shared rest with
      | [] => .ok (c, rest)
      | v :: _ => .ok (c.enter v rest)

end Command

/-- **An invocation**: a command with its settings and arguments. -/
structure Invocation where
  command : Command
  settings : Settings
  arguments : List Text
deriving DecidableEq, Repr

namespace Invocation

/-- **Reads a command line.** -/
def parse (args : List Text) : Except UsageError Invocation :=
  match Command.locate args with
  | .error e => .error e
  | .ok (c, rest) =>
    match Flag.read c.flags c.interspersed rest { } with
    | .error e => .error e
    | .ok (s, words) => .ok ⟨c, s, words⟩

/-- Whether nothing is to be done but to explain how the program is used. -/
def isHelp (i : Invocation) : Bool :=
  i.settings.help || i.command == .program || i.command == .help || i.command == .completion

end Invocation

end Colloquy
