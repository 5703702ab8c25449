import Colloquy.Proofs.Json.Reading

/-!
# The grammar of JSON

The texts that are JSON by the standard, on bytes.  A JSON text is a value with white space around
it (`Grammar.Element`); values are words, numbers, strings, arrays and objects.  The characters of a
string are written in UTF-8, and neither control characters nor quotes nor backslashes stand there
by themselves.

The grammar says which texts are JSON and not what they denote, and knows no limits: a number may be
of any size, and arrays and objects may be nested to any depth.
-/

namespace Colloquy

namespace Json

namespace Grammar

/-! ### Numbers -/

/-- The point and the digits behind it, or nothing. -/
inductive Fraction : Text → Prop
  | none : Fraction []
  | digits {ds : List ℕ} (hne : ds ≠ []) (hds : ∀ d ∈ ds, d < 10) :
      Fraction (46 :: Text.ofDigits ds)

/-- The mark of an exponent, perhaps a sign, and digits, or nothing. -/
inductive Exponent : Text → Prop
  | none : Exponent []
  | digits {m : UInt8} {sign : Text} {ds : List ℕ} (hm : m = 101 ∨ m = 69)
      (hsign : sign = [] ∨ sign = [43] ∨ sign = [45]) (hne : ds ≠ []) (hds : ∀ d ∈ ds, d < 10) :
      Exponent (m :: (sign ++ Text.ofDigits ds))

/-- **A number without its minus sign.**  Its whole part does not start with a zero, unless this is
all of it. -/
inductive Unsigned : Text → Prop
  | digits {d : ℕ} {ds : List ℕ} {f e : Text} (hds : ∀ x ∈ d :: ds, x < 10)
      (hlead : d ≠ 0 ∨ ds = []) (hf : Fraction f) (he : Exponent e) :
      Unsigned (Text.ofDigits (d :: ds) ++ (f ++ e))

/-! ### Strings -/

/-- The hexadecimal digits in either case. -/
def IsHex (b : UInt8) : Prop := 48 ≤ b ∧ b ≤ 57 ∨ 97 ≤ b ∧ b ≤ 102 ∨ 65 ≤ b ∧ b ≤ 70

/-- The letters and signs that can stand behind a backslash for a character. -/
def IsEscape (c : UInt8) : Prop :=
  c = 34 ∨ c = 92 ∨ c = 47 ∨ c = 98 ∨ c = 102 ∨ c = 110 ∨ c = 114 ∨ c = 116

/-- **What stands for a character between quotes.** -/
inductive Character : Text → Prop
  | plain {c : Char} (hc : 32 ≤ c.toNat) (hquote : c ≠ '"') (hslash : c ≠ '\\') :
      Character (String.utf8EncodeChar c)
  | letter {c : UInt8} (hc : IsEscape c) : Character [92, c]
  | unit {a b c d : UInt8} (ha : IsHex a) (hb : IsHex b) (hc : IsHex c) (hd : IsHex d) :
      Character [92, 117, a, b, c, d]

/-- What stands for characters between quotes. -/
inductive Characters : Text → Prop
  | nil : Characters []
  | cons {c t : Text} (hc : Character c) (ht : Characters t) : Characters (c ++ t)

/-! ### Values -/

/-- The key of a member, with white space around it. -/
inductive Key : Text → Prop
  | mk {ws u vs : Text} (hws : Blanks ws) (hu : Characters u) (hvs : Blanks vs) :
      Key (ws ++ (34 :: (u ++ 34 :: vs)))

mutual

/-- **A value.** -/
inductive Value : Text → Prop
  | null : Value (Text.ofString "null")
  | bool (b : Bool) : Value (Text.ofBool b)
  | number (s : Bool) {u : Text} (hu : Unsigned u) : Value (if s then 45 :: u else u)
  | string {u : Text} (hu : Characters u) : Value (34 :: (u ++ [34]))
  | emptyArray {ws : Text} (hws : Blanks ws) : Value (91 :: (ws ++ [93]))
  | array {u : Text} (hu : Items u) : Value (91 :: (u ++ [93]))
  | emptyObject {ws : Text} (hws : Blanks ws) : Value (123 :: (ws ++ [125]))
  | object {u : Text} (hu : Members u) : Value (123 :: (u ++ [125]))

/-- **A value with white space around it.**  This is what a JSON text is. -/
inductive Element : Text → Prop
  | mk {ws v vs : Text} (hws : Blanks ws) (hv : Value v) (hvs : Blanks vs) :
      Element (ws ++ (v ++ vs))

/-- The items of an array, one at least. -/
inductive Items : Text → Prop
  | last {t : Text} (ht : Element t) : Items t
  | more {t u : Text} (ht : Element t) (hu : Items u) : Items (t ++ 44 :: u)

/-- The members of an object, one at least. -/
inductive Members : Text → Prop
  | last {k t : Text} (hk : Key k) (ht : Element t) : Members (k ++ 58 :: t)
  | more {k t u : Text} (hk : Key k) (ht : Element t) (hu : Members u) :
      Members (k ++ 58 :: (t ++ 44 :: u))

end

end Grammar

end Json

end Colloquy
