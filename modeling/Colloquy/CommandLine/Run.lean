import Colloquy.Builtins
import Colloquy.CommandLine.Command
import Colloquy.Literal

/-!
# Running a command line

What the program does with its arguments.  Arguments are first read as a command with its settings,
then as values, and only then is a builtin called; so nothing is written if an argument is at fault.
-/

namespace Colloquy

/-- **The end of a run**: the error that the program ends with, if any, the console, and the level
of its log, which is known once the settings are read. -/
structure Run where
  error : Option Error
  console : Console
  level : Level

namespace Run

/-- What the program has written. -/
def output (r : Run) : Text := r.console.output

/-- What the log shows. -/
def log (r : Run) : Text := Log.text r.level r.console.entries

/-- What the program reports besides its output: the log, and the error. -/
def report (r : Run) : Text :=
  match r.error with
  | none => r.log
  | some e => r.log ++ "Error: " ++ e.message ++ "\n"

/-- The exit code. -/
def code (r : Run) : Nat := if r.error.isSome then 1 else 0

end Run

/-- **The manual**: the texts that explain how a command with given arguments is used, and those of
the script with which a shell completes command lines, with or without descriptions.  They are
written one after the other as they are. -/
structure Manual where
  usage : Command → List Text → List Text
  script : Shell → Bool → List Text

namespace Literal

/-- The values of literals, or the error of the first one that has none. -/
def parseAll : List Text → Except Error (List Value)
  | [] => .ok []
  | t :: ts =>
    match parse t with
    | .error e => .error e
    | .ok v => (parseAll ts).map (v :: ·)

end Literal

namespace Command

/-- The version of the program. -/
def versionText : Text := "0.1.0"

/-- A name filled up with blanks to `n` columns. -/
def padded (n : Nat) (name : Text) : Text := name ++ List.replicate (n - name.glyphs.length) 32

/-- What is done about a call: on failure its error is given, otherwise `next` goes on. -/
def andThen (r : Reply) (next : Reply → Except Error Unit × Console) :
    Except Error Unit × Console :=
  match r.error with
  | some e => (.error e, r.console)
  | none => next r

/-- Says a value on a line of its own. -/
def sayLine (p : Printer) (v : Value) (c : Console) : Except Error Unit × Console :=
  p.say [v, .str "\n"] c

/-- Says literals on one line. -/
def runSay (r : Registry) (s : Settings) (args : List Text) (c : Console) :
    Except Error Unit × Console :=
  match Literal.parseAll args with
  | .error e => (.error e, c)
  | .ok vs =>
    andThen (r.call .live "say" vs c) fun reply =>
      (.ok (), if s.noNewline then reply.console else (reply.console.write "\n").2)

/-- Says an element of an array, and the array itself if the element is replaced. -/
def runIndex (p : Printer) (r : Registry) (args : List Text) (c : Console) :
    Except Error Unit × Console :=
  match Literal.parseAll args with
  | .error e => (.error e, c)
  | .ok vs =>
    andThen (r.call .live "index" vs c) fun reply =>
      match sayLine p reply.value reply.console with
      | (.error e, c) => (.error e, c)
      | (.ok (), c) =>
        match reply.arguments with
        | [vec, _, _] => sayLine p vec c
        | _ => (.ok (), c)

/-- Says the length of a literal. -/
def runLen (p : Printer) (r : Registry) (args : List Text) (c : Console) :
    Except Error Unit × Console :=
  match Literal.parseAll args with
  | .error e => (.error e, c)
  | .ok vs => andThen (r.call .live "len" vs c) fun reply => sayLine p reply.value reply.console

/-- Says a prompt, and the line that is then read. -/
def runAsk (p : Printer) (r : Registry) (args : List Text) (c : Console) :
    Except Error Unit × Console :=
  andThen (r.call .live "ask" (args.map .str) c) fun reply => sayLine p reply.value reply.console

/-- A builtin in the listing. -/
def listLine (b : Builtin) : Text := "\t" ++ padded 6 b.name ++ " " ++ b.description ++ "\n"

/-- Writes texts one after the other, whether they arrive or not. -/
def writeAll (ts : List Text) (c : Console) : Console := ts.foldl (fun c t => (c.write t).2) c

/-- **Runs a command.** -/
def run (cmd : Command) (m : Manual) (p : Printer) (r : Registry) (s : Settings)
    (args : List Text) (c : Console) : Except Error Unit × Console :=
  match cmd with
  | say => runSay r s args c
  | index => runIndex p r args c
  | len => runLen p r args c
  | ask => runAsk p r args c
  | list => (.ok (), writeAll (Text.ofString "Available builtins:\n" :: r.list.map listLine) c)
  | version => (.ok (), writeAll [versionText ++ [10]] c)
  | script shell => (.ok (), writeAll (m.script shell (!s.noDescriptions)) c)
  | program | help | completion => (.ok (), writeAll (m.usage cmd args) c)

end Command

namespace Invocation

/-- The printer that the settings ask for. -/
def printer (s : Settings) : Printer :=
  ⟨if s.legacyBackspace then .terminal else .plain, s.strict⟩

/-- The log entry about the settings. -/
def configured (s : Settings) : Entry :=
  ⟨.debug, "configured printer",
    [("legacy_backspace", .bool s.legacyBackspace), ("strict", .bool s.strict)]⟩

/-- **Runs an invocation.** -/
def run (i : Invocation) (m : Manual) (c : Console) : Run :=
  if i.isHelp then ⟨none, Command.writeAll (m.usage i.command i.arguments) c, .warning⟩
  else
    match i.command.checkCount i.arguments with
    | .error e => ⟨some (.usage e), c, .warning⟩
    | .ok () =>
      match Level.ofSetting i.settings.logLevel with
      | .error e => ⟨some e, c, .warning⟩
      | .ok level =>
        let p := printer i.settings
        match Registry.empty.registerDefaults p with
        | (.error e, _) => ⟨some e, c, level⟩
        | (.ok (), r) =>
          match i.command.run m p r i.settings i.arguments (c.log [configured i.settings]) with
          | (.error e, c) => ⟨some e, c, level⟩
          | (.ok (), c) => ⟨none, c, level⟩

end Invocation

/-- **Runs a command line** on a console. -/
def runCommandLine (m : Manual) (args : List Text) (c : Console) : Run :=
  match Invocation.parse args with
  | .error e => ⟨some (.usage e), c, .warning⟩
  | .ok i => i.run m c

end Colloquy
