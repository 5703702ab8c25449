import Colloquy.Json.Basic
import Colloquy.Number.Numeral
import Colloquy.Text.Glyph

/-!
# Reading JSON

The reader is lenient in a few places.  After the value and blanks a text may end or go on with a
NUL byte, after which anything may follow.  A number may have a plus sign behind its minus sign.  A
control character is allowed in a string once an escape has come before it.  A key other than the
first may be the word `null`, for the empty key.  Arrays and objects may be nested ten thousand
deep.

Functions that read a part give what it denotes and the rest of the text, or nothing if there is a
fault.
-/

namespace Colloquy.Json

/-- The white space of JSON. -/
def isBlank (b : UInt8) : Bool := b == 32 || b == 9 || b == 10 || b == 13

/-- A text without the blanks at its start. -/
def skip (t : Text) : Text := t.dropWhile isBlank

/-! ### Strings -/

/-- The value of a hexadecimal digit in either case. -/
def hexValue? (b : UInt8) : Option Nat :=
  if 48 ≤ b ∧ b ≤ 57 then some (b.toNat - 48)
  else if 97 ≤ b ∧ b ≤ 102 then some (b.toNat - 87)
  else if 65 ≤ b ∧ b ≤ 70 then some (b.toNat - 55)
  else none

/-- The UTF-16 unit that four hexadecimal digits give. -/
def unit? (a b c d : UInt8) : Option Nat := do
  let a ← hexValue? a
  let b ← hexValue? b
  let c ← hexValue? c
  let d ← hexValue? d
  pure (((a * 16 + b) * 16 + c) * 16 + d)

/-- Whether a UTF-16 unit is half of a pair. -/
def isSurrogate (u : Nat) : Bool := 0xD800 ≤ u && u ≤ 0xDFFF

/-- The bytes of the character with number `n`; for half of a pair, those of the replacement
character. -/
def encode (n : Nat) : Text :=
  String.utf8EncodeChar (if n.isValidChar then Char.ofNat n else '\uFFFD')

/-- The bytes of two UTF-16 units, of which the first is half of a pair. -/
def encodePair (u v : Nat) : Text :=
  if u < 0xDC00 ∧ 0xDC00 ≤ v ∧ v ≤ 0xDFFF then
    encode (0x10000 + (u - 0xD800) * 0x400 + (v - 0xDC00))
  else encode u ++ encode v

/-- The byte that a letter after a backslash stands for. -/
def letter? (c : UInt8) : Option UInt8 :=
  if c = 34 ∨ c = 92 ∨ c = 47 then some c
  else if c = 98 then some 8
  else if c = 102 then some 12
  else if c = 110 then some 10
  else if c = 114 then some 13
  else if c = 116 then some 9
  else none

/-- Puts bytes before the text that was read. -/
def prepend (w : Text) (r : Option (Text × Text)) : Option (Text × Text) :=
  r.map fun p => (w ++ p.1, p.2)

/-- **A string after its opening quote.**  `escaped` says that an escape has come before. -/
def string? (escaped : Bool) : Text → Option (Text × Text)
  | [] => none
  | b :: t =>
    if b = 34 then some ([], t)
    else if b = 92 then
      match t with
      | [] => none
      | c :: t =>
        if c = 117 then
          match t with
          | h₁ :: h₂ :: h₃ :: h₄ :: t =>
            match unit? h₁ h₂ h₃ h₄ with
            | none => none
            | some u =>
              if isSurrogate u then
                match t with
                | 92 :: 117 :: k₁ :: k₂ :: k₃ :: k₄ :: t =>
                  match unit? k₁ k₂ k₃ k₄ with
                  | none => none
                  | some v => prepend (encodePair u v) (string? true t)
                | t => prepend (encode u) (string? true t)
              else prepend (encode u) (string? true t)
          | _ => none
        else
          match letter? c with
          | some b => prepend [b] (string? true t)
          | none => none
    else if b < 32 ∧ escaped = false then none
    else prepend [b] (string? escaped t)

/-! ### Numbers -/

/-- Whether a byte can be part of a number. -/
def isNumeric (b : UInt8) : Bool :=
  (48 ≤ b && b ≤ 57) || b == 43 || b == 45 || b == 46 || b == 69 || b == 101

/-- Whether a byte is a decimal digit. -/
def isDigit (b : UInt8) : Bool := 48 ≤ b && b ≤ 57

/-- Whether the digits of a number start as they should: not with a sign or a point, nor with a zero
before another digit. -/
def startsWell : Text → Bool
  | 45 :: _ => false
  | 46 :: _ => false
  | 48 :: d :: _ => !isDigit d
  | _ => true

/-- Whether a digit follows the first point, if there is one. -/
def pointsWell (t : Text) : Bool :=
  match t.dropWhile (· != 46) with
  | [] => true
  | _ :: r => (r.head?.map isDigit).getD false

/-- The number that the digits `t` denote under a given sign; none if it is too large. -/
def numberOf? (negative : Bool) (t : Text) : Option Double :=
  if startsWell t && pointsWell t then
    match (Numeral.read? t).map fun n => Numeral.toBinary { n with negative := negative } with
    | some (.infinite _) => none
    | x => x
  else none

/-- **A number.** -/
def number? (t : Text) : Option (Double × Text) :=
  let negative := t.head? == some 45
  let u := if negative then t.drop 1 else t
  (numberOf? negative (u.takeWhile isNumeric)).map (·, u.dropWhile isNumeric)

/-! ### Values -/

/-- The key of a member.  Only the first key has to be a string. -/
def key? (first : Bool) (t : Text) : Option (Text × Text) :=
  match skip t with
  | [] => none
  | b :: t =>
    if b = 34 then string? false t
    else if b = 110 ∧ first = false then (Text.dropStart? "ull" t).map ([], ·)
    else none

mutual

/-- **A value**, in which arrays and objects are nested at most `depth` deep. -/
def value? : (fuel depth : Nat) → Text → Option (Json × Text)
  | 0, _, _ => none
  | fuel + 1, depth, t =>
    match skip t with
    | [] => none
    | b :: r =>
      if b = 34 then (string? false r).map fun p => (string p.1, p.2)
      else if b = 45 ∨ isDigit b then (number? (b :: r)).map fun p => (number p.1, p.2)
      else if b = 110 then (Text.dropStart? "ull" r).map (null, ·)
      else if b = 116 then (Text.dropStart? "rue" r).map (bool true, ·)
      else if b = 102 then (Text.dropStart? "alse" r).map (bool false, ·)
      else if b = 91 then
        match depth with
        | 0 => none
        | depth + 1 =>
          if (skip r).head? = some 93 then some (array [], (skip r).drop 1)
          else (items? fuel depth r).map fun p => (array p.1, p.2)
      else if b = 123 then
        match depth with
        | 0 => none
        | depth + 1 =>
          if (skip r).head? = some 125 then some (object [], (skip r).drop 1)
          else (members? fuel depth true r).map fun p => (object p.1, p.2)
      else none

/-- The items of an array up to its closing bracket, one at least. -/
def items? : (fuel depth : Nat) → Text → Option (List Json × Text)
  | 0, _, _ => none
  | fuel + 1, depth, t =>
    match value? fuel depth t with
    | none => none
    | some (j, r) =>
      match skip r with
      | [] => none
      | b :: r =>
        if b = 44 then (items? fuel depth r).map fun p => (j :: p.1, p.2)
        else if b = 93 then some ([j], r)
        else none

/-- The members of an object up to its closing brace, one at least. -/
def members? : (fuel depth : Nat) → Bool → Text → Option (List (Text × Json) × Text)
  | 0, _, _, _ => none
  | fuel + 1, depth, first, t =>
    match key? first t with
    | none => none
    | some (k, r) =>
      if (skip r).head? = some 58 then
        match value? fuel depth ((skip r).drop 1) with
        | none => none
        | some (j, r) =>
          match skip r with
          | [] => none
          | b :: r =>
            if b = 44 then (members? fuel depth false r).map fun p => ((k, j) :: p.1, p.2)
            else if b = 125 then some ([(k, j)], r)
            else none
      else none

end

/-- How deep arrays and objects may be nested. -/
def maxDepth : Nat := 10000

/-- **Reads a JSON text.** Each step of the reader takes a byte of the text, or is followed by one
that does, so the fuel is enough. -/
def read? (t : Text) : Option Json :=
  match value? (2 * t.length + 2) maxDepth t with
  | none => none
  | some (j, r) =>
    match skip r with
    | [] => some j
    | b :: _ => if b = 0 then some j else none

end Colloquy.Json
