import Colloquy.Text.Quoted

/-!
# Faults in a command line

What can be wrong with a list of arguments before any of them is taken as a value: an unknown
subcommand, an unknown or badly given flag, or too few or too many arguments.
-/

namespace Colloquy

/-- **A fault in a command line.** -/
inductive UsageError where
  /-- No subcommand of `path` has this name; `suggestions` are names that resemble it. -/
  | unknownCommand (name path : Text) (suggestions : List Text)
  | badSyntax (argument : Text)
  | unknownFlag (name : Text)
  /-- No flag has the letter with which `group` starts. -/
  | unknownLetter (letter : UInt8) (group : Text)
  | missingValue (argument : Text)
  | badTruth (value flag : Text)
  | tooFew (least got : Nat)
  | outside (least most got : Nat)
  | notExactly (count got : Nat)
deriving DecidableEq, Repr

namespace UsageError

/-- A name that resembles an unknown one, on a line of its own. -/
def suggestionLine (n : Text) : Text := "\t" ++ n ++ "\n"

/-- The names that resemble an unknown one, if there are any. -/
def suggestionText (names : List Text) : Text :=
  if names.isEmpty then [] else "\n\nDid you mean this?\n" ++ names.flatMap suggestionLine

def message : UsageError → Text
  | unknownCommand n path names =>
    "unknown command " ++ n.quoted ++ " for " ++ path.quoted ++ suggestionText names
  | badSyntax a => "bad flag syntax: " ++ a
  | unknownFlag n => "unknown flag: --" ++ n
  | unknownLetter b g => "unknown shorthand flag: " ++ Text.quotedChar b.toNat ++ " in -" ++ g
  | missingValue a => "flag needs an argument: " ++ a
  | badTruth v f =>
    "invalid argument " ++ v.quoted ++ " for " ++ f.quoted ++
      " flag: strconv.ParseBool: parsing " ++ v.quoted ++ ": invalid syntax"
  | tooFew least got =>
    "requires at least " ++ Text.ofNat least ++ " arg(s), only received " ++ Text.ofNat got
  | outside least most got =>
    "accepts between " ++ Text.ofNat least ++ " and " ++ Text.ofNat most ++ " arg(s), received " ++
      Text.ofNat got
  | notExactly n got => "accepts " ++ Text.ofNat n ++ " arg(s), received " ++ Text.ofNat got

end UsageError

end Colloquy
