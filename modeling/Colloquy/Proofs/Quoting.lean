import Colloquy.Proofs.Json.Reading
import Colloquy.Proofs.Literal

/-!
# Strings as literals

Every text can be given as a literal: between quotes, with a backslash before each quote and
backslash, and with control characters by their numbers (`Json.quote`).  All other bytes stand for
themselves, also those that are no UTF-8.  What is quoted is read back, whatever follows the closing
quote (`Json.string?_escaped`).

Main statement: the literal of a quoted text is that text, and an array of quoted texts is the
array, the queue or the stack of these texts, with any white space around them
(`Literal.quoted_texts_denoted`).
-/

namespace Colloquy

namespace Json

/-! ### Quoted texts -/

/-- The byte of a hexadecimal digit, in capitals or not. -/
def hexDigit (capital : Bool) (d : ℕ) : UInt8 :=
  if capital = true ∧ 10 ≤ d then (55 + d).toUInt8 else Text.digit d

/-- How a byte of a text is written between quotes. -/
def escape (capital : Bool) (b : UInt8) : Text :=
  if b = 34 ∨ b = 92 then [92, b]
  else if b < 32 then
    "\\u00" ++ [hexDigit capital (b.toNat / 16), hexDigit capital (b.toNat % 16)]
  else [b]

/-- **A text between quotes.** -/
def quote (capital : Bool) (w : Text) : Text := "\"" ++ w.flatMap (escape capital) ++ "\""

theorem hexValue?_hexDigit (capital : Bool) {d : ℕ} (h : d < 16) :
    hexValue? (hexDigit capital d) = some d := by
  revert d capital
  decide

theorem unit?_of_lt (capital : Bool) {n : ℕ} (h : n < 256) :
    unit? 48 48 (hexDigit capital (n / 16)) (hexDigit capital (n % 16)) = some n := by
  have hzero : hexValue? 48 = some 0 := rfl
  rw [unit?, hzero, hexValue?_hexDigit capital (by omega), hexValue?_hexDigit capital (by omega)]
  simp only [Option.bind_eq_bind, Option.bind_some, Option.pure_def, Option.some.injEq]
  omega

theorem encode_of_lt {b : UInt8} (h : b < 32) : encode b.toNat = [b] := by
  have hencode : ∀ n < 32, encode n = [UInt8.ofNat n] := by decide
  rw [hencode _ (UInt8.lt_iff_toNat_lt.mp h), UInt8.ofNat_toNat]

/-! ### One step of the reader of strings -/

theorem string?_close (escaped : Bool) (t : Text) : string? escaped (34 :: t) = some ([], t) := by
  rw [string?.eq_def]
  rfl

theorem string?_letter (escaped : Bool) {c b : UInt8} (hc : letter? c = some b) (t : Text) :
    string? escaped (92 :: c :: t) = prepend [b] (string? true t) := by
  have hu : c ≠ 117 := by
    rintro rfl
    cases hc
  rw [string?.eq_def]
  simp only [show (92 : UInt8) ≠ 34 by decide, if_neg hu, hc, if_false, if_true]

theorem string?_unit (escaped : Bool) {h₁ h₂ h₃ h₄ : UInt8} {u : ℕ}
    (hu : unit? h₁ h₂ h₃ h₄ = some u) (hs : isSurrogate u = false) (t : Text) :
    string? escaped (92 :: 117 :: h₁ :: h₂ :: h₃ :: h₄ :: t) =
      prepend (encode u) (string? true t) := by
  rw [string?.eq_def]
  simp only [show (92 : UInt8) ≠ 34 by decide, hu, hs, Bool.false_eq_true, if_false, if_true]

theorem string?_plain {escaped : Bool} {b : UInt8} (hq : ¬ (b = 34 ∨ b = 92))
    (hb : ¬ (b < 32 ∧ escaped = false)) (t : Text) :
    string? escaped (b :: t) = prepend [b] (string? escaped t) := by
  rw [not_or] at hq
  rw [string?.eq_def]
  simp only [hq.1, hq.2, hb, if_false]

/-- **A quoted byte is read back** as the next byte of the string. -/
theorem string?_escape (capital escaped : Bool) (b : UInt8) (t : Text) :
    ∃ escaped', string? escaped (escape capital b ++ t) = prepend [b] (string? escaped' t) := by
  unfold escape
  split_ifs with hq hc
  · have hb : letter? b = some b := by rcases hq with rfl | rfl <;> rfl
    exact ⟨true, string?_letter escaped hb t⟩
  · have hlt : b.toNat < 32 := UInt8.lt_iff_toNat_lt.mp hc
    have hs : isSurrogate b.toNat = false := by
      rw [isSurrogate, decide_eq_false (by omega)]
      rfl
    refine ⟨true, ?_⟩
    rw [← encode_of_lt hc]
    exact string?_unit escaped (unit?_of_lt capital (by omega)) hs t
  · exact ⟨escaped, string?_plain hq (fun h => hc h.1) t⟩

/-- **A quoted text is read back**, whatever follows its closing quote. -/
theorem string?_escaped (capital escaped : Bool) (w rest : Text) :
    string? escaped (w.flatMap (escape capital) ++ 34 :: rest) = some (w, rest) := by
  induction w generalizing escaped with
  | nil => exact string?_close escaped rest
  | cons b w ih =>
    obtain ⟨escaped', hb⟩ :=
      string?_escape capital escaped b (w.flatMap (escape capital) ++ 34 :: rest)
    rw [List.flatMap_cons, List.append_assoc, hb, ih]
    rfl

theorem reads_quote (capital : Bool) (w : Text) : Reads (quote capital w) (string w) := by
  have hquote : quote capital w = 34 :: (w.flatMap (escape capital) ++ [34]) := rfl
  rw [hquote]
  refine ⟨⟨34, _, rfl, rfl, by decide⟩, fun fuel depth rest _ => ?_⟩
  rw [List.cons_append, List.append_assoc, value?, skip_of_not_blank rfl]
  simp only [if_true]
  rw [List.singleton_append, string?_escaped]
  rfl

/-! ### Lists of quoted texts -/

/-- The white space of JSON. -/
inductive Blank where
  | space
  | tab
  | lineFeed
  | carriageReturn
deriving DecidableEq, Repr

namespace Blank

def byte : Blank → UInt8
  | space => 32
  | tab => 9
  | lineFeed => 10
  | carriageReturn => 13

end Blank

theorem blanks_map (ws : List Blank) : Blanks (ws.map Blank.byte) :=
  List.forall_mem_map.mpr fun b _ => by cases b <;> rfl

/-- **A text in a list**, with white space around it. -/
structure Padded where
  before : List Blank
  text : Text
  after : List Blank
deriving DecidableEq, Repr

namespace Padded

/-- The text between quotes and the white space around it. -/
def written (capital : Bool) (p : Padded) : Text :=
  p.before.map Blank.byte ++ (quote capital p.text ++ p.after.map Blank.byte)

end Padded

theorem listed_written (capital : Bool) {ps : List Padded} (hne : ps ≠ []) :
    Listed (Text.join "," (ps.map (Padded.written capital))) ((ps.map Padded.text).map string) := by
  induction ps with
  | nil => exact absurd rfl hne
  | cons p ps ih =>
    have hreads := reads_quote capital p.text
    cases ps with
    | nil =>
      rw [List.map_singleton, Text.join, List.intercalate_singleton]
      exact .last (blanks_map _) hreads (blanks_map _)
    | cons q ps =>
      rw [List.map_cons, List.map_cons, join_cons_cons, Padded.written, List.append_assoc,
        List.append_assoc]
      exact .more (blanks_map _) hreads (blanks_map _) (ih (by simp))

end Json

namespace Literal

open Json (Padded quote)

theorem parse_of_listed {u : Text} {js : List Json} (h : Json.Listed u js) {t : Text} {shape : Shape}
    (ht : split t = (shape, "[" ++ u ++ "]")) {v : Value} (hv : Holds shape js v) :
    parse t = .ok v := by
  have hread : Json.read? ("[" ++ u ++ "]") = some (.array js) := h.read?
  rw [parse_eq_ok, ht, hread]
  exact .container hv

/-- **Every text is the value of a literal**, and every list of texts is that of an array, a queue
and a stack. -/
theorem quoted_texts_denoted (capital : Bool) :
    (∀ w, parse (quote capital w) = .ok (.str w)) ∧
    ∀ ps : List Padded, ps ≠ [] →
      let list := "[" ++ Text.join "," (ps.map (Padded.written capital)) ++ "]"
      let ws := ps.map Padded.text
      parse list = .ok (.slice none (.scalar ⟨none, .text⟩) (some ws)) ∧
        parse ("q:" ++ list) = .ok (.queue ⟨none, .text⟩ (some (.ofList ws))) ∧
        parse ("s:" ++ list) = .ok (.stack ⟨none, .text⟩ (some (.ofList ws))) := by
  refine ⟨fun w => ?_, fun ps hne => ?_⟩
  · have hsplit : split (quote capital w) = (.array, quote capital w) := rfl
    rw [parse_eq_ok, hsplit, (Json.reads_quote capital w).read?]
    exact .string rfl w
  · have hlisted := Json.listed_written capital hne
    have hws : ps.map Padded.text ≠ [] := by simpa using hne
    exact ⟨parse_of_listed hlisted rfl (.strings hws .array),
      parse_of_listed hlisted rfl (.strings hws .queue),
      parse_of_listed hlisted rfl (.strings hws .stack)⟩

/-- A text that looks like a queue, and one of a quote, a backslash, a control character and a stray
byte. -/
theorem quoted_texts_denoted_stack :
    let ps : List Padded := [⟨[.tab], "q:[1]", [.space]⟩, ⟨[], [34, 92, 31, 255], [.lineFeed]⟩]
    let list := "[" ++ Text.join "," (ps.map (Padded.written true)) ++ "]"
    ps ≠ [] ∧
      list = Text.ofString "[\t\"q:[1]\" ,\"\\\"\\\\\\u001F" ++ 255 :: Text.ofString "\"\n]" ∧
      parse ("s:" ++ list) =
        .ok (.stack ⟨none, .text⟩ (some (.ofList ["q:[1]", [34, 92, 31, 255]]))) :=
  ⟨by decide, by decide, ((quoted_texts_denoted true).2 _ (by decide)).2.2⟩

end Literal

end Colloquy
