import Colloquy.Builtins
import Colloquy.CommandLine.Command
import Colloquy.CommandLine.Flag
import Colloquy.CommandLine.Run
import Colloquy.CommandLine.Suggestion
import Colloquy.CommandLine.UsageError
import Colloquy.Console
import Colloquy.Container.Queue
import Colloquy.Container.Slots
import Colloquy.Container.Stack
import Colloquy.DeclaredType
import Colloquy.Error
import Colloquy.Indexing
import Colloquy.Json.Basic
import Colloquy.Json.Reader
import Colloquy.Kind
import Colloquy.Literal
import Colloquy.Log.Entry
import Colloquy.Log.Level
import Colloquy.Main
import Colloquy.Number.Binary
import Colloquy.Number.Decimal
import Colloquy.Number.Numeral
import Colloquy.Number.Power
import Colloquy.Number.Rounding
import Colloquy.Printer
import Colloquy.Proofs.Agreement
import Colloquy.Proofs.Asking
import Colloquy.Proofs.BareText
import Colloquy.Proofs.Calling
import Colloquy.Proofs.Classifying
import Colloquy.Proofs.Collecting
import Colloquy.Proofs.CommandLine.Counting
import Colloquy.Proofs.CommandLine.Dialogue
import Colloquy.Proofs.CommandLine.Indifference
import Colloquy.Proofs.CommandLine.Running
import Colloquy.Proofs.Container.Disciplines
import Colloquy.Proofs.Container.Draining
import Colloquy.Proofs.Container.Histories
import Colloquy.Proofs.Container.Memory
import Colloquy.Proofs.Declarations
import Colloquy.Proofs.Defaults
import Colloquy.Proofs.Indexing
import Colloquy.Proofs.Json.Grammar
import Colloquy.Proofs.Json.Numerals
import Colloquy.Proofs.Json.Reading
import Colloquy.Proofs.Json.Scalars
import Colloquy.Proofs.Json.Strings
import Colloquy.Proofs.Literal
import Colloquy.Proofs.Number.Closeness
import Colloquy.Proofs.Number.Decimal
import Colloquy.Proofs.Number.Exact
import Colloquy.Proofs.Number.Narrowing
import Colloquy.Proofs.Number.Nearest
import Colloquy.Proofs.Number.Numeral
import Colloquy.Proofs.Number.Whole
import Colloquy.Proofs.Number.Written
import Colloquy.Proofs.Outcome
import Colloquy.Proofs.Positions
import Colloquy.Proofs.Quoting
import Colloquy.Proofs.Registry
import Colloquy.Proofs.Rendering
import Colloquy.Proofs.Reporting
import Colloquy.Proofs.Reshaping
import Colloquy.Proofs.RoundTrip
import Colloquy.Proofs.Saying
import Colloquy.Proofs.SixDigits
import Colloquy.Proofs.Storage
import Colloquy.Proofs.Terminal
import Colloquy.Proofs.Terminators
import Colloquy.Proofs.Text.Digits
import Colloquy.Proofs.Text.Fields
import Colloquy.Proofs.Text.Glyph
import Colloquy.Proofs.Text.Utf8
import Colloquy.Proofs.Widths
import Colloquy.Registry
import Colloquy.Rendering
import Colloquy.Text.Basic
import Colloquy.Text.Blank
import Colloquy.Text.Digits
import Colloquy.Text.Glyph
import Colloquy.Text.Lowercase
import Colloquy.Text.Printable
import Colloquy.Text.Quoted
import Colloquy.Value.Basic
import Colloquy.Value.Dump
import Colloquy.Value.Plain
import Colloquy.Variables
