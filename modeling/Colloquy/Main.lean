import Colloquy.CommandLine.Run

/-!
# The program

Gathers the arguments and the text to read, runs the command line, and passes on what it writes.
The text is read only where a command asks for it.  The manual of the program is its own.
-/

namespace Colloquy.Program

open Command

/-- What a subcommand does, in a few words. -/
def summary : Command → Text
  | program => "Call biro runtime builtins from the command line"
  | say => "Render values"
  | index => "Read or replace an array element by rounded position"
  | len => "Print the length of a string or container"
  | ask => "Print a prompt and echo the line read from stdin"
  | list => "List available builtins"
  | version => "Show version"
  | help => "Help about any command"
  | completion => "Generate the autocompletion script for the specified shell"
  | script shell => "Generate the autocompletion script for " ++ shell.name

/-- A subcommand in the overview. -/
def usageLine (c : Command) : Text := "  " ++ padded 11 c.name ++ " " ++ summary c ++ "\n"

/-- How a command is used. -/
def usage (c : Command) : List Text :=
  let first := summary c ++ "\n\nUsage:\n  " ++ c.path ++ "\n"
  match c.subcommands with
  | [] => [first]
  | ds => [first, "\nAvailable Commands:\n"] ++ ds.map usageLine

/-- What makes a shell complete the names of the subcommands. -/
def completion (shell : Shell) : Text :=
  let names := Text.join " " (program.subcommands.map name)
  match shell with
  | .bash => "complete -W '" ++ names ++ "' " ++ program.name ++ "\n"
  | .zsh => "compctl -k '(" ++ names ++ ")' " ++ program.name ++ "\n"
  | .fish => "complete -c " ++ program.name ++ " -f -a '" ++ names ++ "'\n"
  | .powershell =>
    "Register-ArgumentCompleter -Native -CommandName " ++ program.name ++
      " -ScriptBlock \x7b -split '" ++ names ++ "' \x7d\n"

/-- The manual of the program. -/
def manual : Manual := ⟨fun c _ => usage c, fun shell _ => [completion shell]⟩

/-- Reads a stream to its end. -/
partial def readAll (s : IO.FS.Stream) (acc : ByteArray) : IO ByteArray := do
  let chunk ← s.read 65536
  if chunk.isEmpty then return acc else readAll s (acc ++ chunk)

/-- Writes a text to a stream. -/
def put (s : IO.FS.Stream) (t : Text) : IO Unit := do
  s.write ⟨t.toArray⟩
  s.flush

/-- Runs the program and gives its exit code. -/
def run (args : List String) : IO UInt32 := do
  let args := args.map Text.ofString
  let asks := (Invocation.parse args).toOption.any (·.command == .ask)
  let input ← if asks then readAll (← IO.getStdin) .empty else pure .empty
  let r := runCommandLine manual args (.new (some (.ofText input.data.toList)) true)
  put (← IO.getStdout) r.output
  put (← IO.getStderr) r.report
  return r.code.toUInt32

end Colloquy.Program

def main (args : List String) : IO UInt32 := Colloquy.Program.run args
