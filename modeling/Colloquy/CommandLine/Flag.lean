import Colloquy.CommandLine.UsageError

/-!
# Flags

A flag is given by its name after two dashes or by its letter after one.  Its value follows an
equals sign; a flag that is a truth value needs none, and any other flag may have it as the next
argument.  Letters may be grouped.  Two dashes by themselves end the flags.
-/

namespace Colloquy

/-- What a flag sets. -/
inductive Setting where
  | logLevel
  | legacyBackspace
  | strict
  | noColor
  | noNewline
  | noDescriptions
  | help
deriving DecidableEq, Repr

/-- **The settings** that the flags of a command line make. -/
structure Settings where
  logLevel : Text := "warning"
  legacyBackspace : Bool := false
  strict : Bool := false
  noColor : Bool := false
  noNewline : Bool := false
  noDescriptions : Bool := false
  help : Bool := false
deriving DecidableEq, Repr

/-- **A flag**: what it sets, its name, and its letter, if it has one. -/
structure Flag where
  setting : Setting
  name : Text
  letter? : Option UInt8
deriving DecidableEq, Repr

namespace Flag

/-- The flags of every subcommand. -/
def shared : List Flag :=
  [⟨.logLevel, "log-level", none⟩, ⟨.legacyBackspace, "legacy-backspace", none⟩,
   ⟨.strict, "strict", none⟩, ⟨.noColor, "no-color", none⟩]

/-- Keeps `say` from ending its line. -/
def noNewline : Flag := ⟨.noNewline, "no-newline", some 110⟩

/-- Keeps a completion script free of descriptions. -/
def noDescriptions : Flag := ⟨.noDescriptions, "no-descriptions", none⟩

/-- Asks for help. -/
def help : Flag := ⟨.help, "help", some 104⟩

/-- Whether a flag is a truth value, so that it needs no value. -/
def isTruth (f : Flag) : Bool := f.setting != .logLevel

/-- A flag as messages call it. -/
def display (f : Flag) : Text :=
  match f.letter? with
  | some l => "-" ++ [l] ++ ", --" ++ f.name
  | none => "--" ++ f.name

/-- The flag with a given name. -/
def named? (flags : List Flag) (name : Text) : Option Flag := flags.find? (·.name == name)

/-- The flag with a given letter. -/
def lettered? (flags : List Flag) (l : UInt8) : Option Flag := flags.find? (·.letter? == some l)

/-- The words for truth. -/
def trueWords : List Text := ["1", "t", "T", "TRUE", "true", "True"]

/-- The words for falsehood. -/
def falseWords : List Text := ["0", "f", "F", "FALSE", "false", "False"]

/-- The truth value that a word spells. -/
def truth? (w : Text) : Option Bool :=
  if trueWords.contains w then some true
  else if falseWords.contains w then some false
  else none

/-- **Gives a flag a value.** -/
def set (f : Flag) (value : Text) (s : Settings) : Except UsageError Settings :=
  if f.setting = .logLevel then .ok { s with logLevel := value }
  else
    match truth? value with
    | none => .error (.badTruth value f.display)
    | some b =>
      match f.setting with
      | .logLevel => .ok s
      | .legacyBackspace => .ok { s with legacyBackspace := b }
      | .strict => .ok { s with strict := b }
      | .noColor => .ok { s with noColor := b }
      | .noNewline => .ok { s with noNewline := b }
      | .noDescriptions => .ok { s with noDescriptions := b }
      | .help => .ok { s with help := b }

/-! ### Reading arguments -/

/-- Whether a text starts with a dash. -/
def dashed (a : Text) : Bool := a.head? == some 45

/-- Sets the flags of a group of letters.  Only flags that are truth values have letters, and
`group` is what is left of the argument.  What starts with `test.` is skipped: such arguments are
for test runs, not for the program. -/
def setGroup (flags : List Flag) : (group : Text) → Settings → Except UsageError Settings
  | [], s => .ok s
  | l :: g, s =>
    if (Text.ofString "test.").isPrefixOf (l :: g) then .ok s
    else
      match lettered? flags l with
      | none => .error (.unknownLetter l (l :: g))
      | some f =>
        if g.head? = some 61 ∧ 1 < g.length then f.set (g.drop 1) s
        else
          match f.set "true" s with
          | .ok s => setGroup flags g s
          | .error e => .error e

/-- The name of a flag, and the value after the equals sign, if there is one. -/
def splitValue (a : Text) : Text × Option Text :=
  let name := a.takeWhile (· != 61)
  if name.length < a.length then (name, some (a.drop (name.length + 1))) else (name, none)

/-- **Reads arguments**: sets the flags among them and gives the others.  Unless flags may follow
other arguments, all arguments from the first other one on are given as they are. -/
def read (flags : List Flag) (interspersed : Bool) :
    List Text → Settings → Except UsageError (Settings × List Text)
  | [], s => .ok (s, [])
  | a :: rest, s =>
    if !dashed a || a.length == 1 then
      if interspersed then (read flags interspersed rest s).map fun r => (r.1, a :: r.2)
      else .ok (s, a :: rest)
    else if a = "--" then .ok (s, rest)
    else if a[1]? = some 45 then
      let (name, value?) := splitValue (a.drop 2)
      if name.isEmpty || dashed name then .error (.badSyntax a)
      else
        match named? flags name, value? with
        | none, _ => .error (.unknownFlag name)
        | some f, some v =>
          match f.set v s with
          | .ok s => read flags interspersed rest s
          | .error e => .error e
        | some f, none =>
          if f.isTruth then
            match f.set "true" s with
            | .ok s => read flags interspersed rest s
            | .error e => .error e
          else
            match rest with
            | [] => .error (.missingValue a)
            | v :: rest =>
              match f.set v s with
              | .ok s => read flags interspersed rest s
              | .error e => .error e
    else
      match setGroup flags (a.drop 1) s with
      | .ok s => read flags interspersed rest s
      | .error e => .error e

/-! ### Looking for a subcommand among arguments -/

/-- Whether an argument is taken for a flag that has its value in the next argument.  This goes by
the flags that are known before the subcommand is: an unknown flag is taken to have a value. -/
def takesNext (flags : List Flag) (a : Text) : Bool :=
  dashed a && !a.contains 61 &&
    ((a[1]? == some 45 && !((named? flags (a.drop 2)).any isTruth)) ||
      (a.length == 2 && !((lettered? flags ((a[1]?).getD 0)).any isTruth)))

/-- The arguments that are neither flags nor values of flags.  The last argument is never looked at
if it follows a flag that takes it. -/
def words (flags : List Flag) : List Text → List Text
  | [] => []
  | a :: rest =>
    if a = "--" then []
    else if takesNext flags a then
      match rest with
      | [] => []
      | [_] => []
      | _ :: b :: rest => words flags (b :: rest)
    else if a.isEmpty || dashed a then words flags rest
    else a :: words flags rest

/-- The arguments without the first one that is the word `w`, and no flag or value of a flag. -/
def dropWord (flags : List Flag) (w : Text) : List Text → List Text
  | [] => []
  | a :: rest =>
    if a = "--" then a :: rest
    else if takesNext flags a then
      match rest with
      | [] => [a]
      | v :: rest => a :: v :: dropWord flags w rest
    else if !dashed a && a = w then rest
    else a :: dropWord flags w rest

end Flag

end Colloquy
