import Colloquy.Proofs.Json.Scalars
import Colloquy.Proofs.Reshaping

/-!
# Bare text

A literal that is no JSON, and opens neither an array nor an object, is meant to be a string as it
stands, with its mark.  But it is the reader that decides what is JSON, and the reader is more
lenient than the grammar.  `Json.Slack` lists what it takes beyond the grammar of such texts: these
are read as something else, or refused behind a mark, and all others are kept.

* `Json.element_or_slack`: what is read is JSON, or the reader is lenient with it.
* `Literal.Marked.parse_eq_self_iff`: a literal is kept just if its body is not read.  A string that
  is read is shorter than its body, so that it is never the literal itself.
-/

namespace Colloquy

namespace Json

/-! ### Beyond the grammar -/

/-- **What the reader takes beyond the grammar**, of texts that open neither an array nor an
object. -/
inductive Slack : Text → Prop
  /-- A plus sign behind the minus sign of a number. -/
  | plus {ws u vs : Text} (hws : Blanks ws) (hu : Plus u) (hfits : Fits u) (hvs : Blanks vs) :
      Slack (ws ++ (45 :: u ++ vs))
  /-- A string with control characters behind an escape, or with bytes that are no UTF-8. -/
  | string {ws u vs : Text} (hws : Blanks ws) (hu : Quoted false u)
      (hraw : (∃ b ∈ u, b.toNat < 32) ∨ ¬ Text.Utf8 u) (hvs : Blanks vs) :
      Slack (ws ++ (34 :: (u ++ [34]) ++ vs))
  /-- A NUL byte behind a scalar, and anything behind that. -/
  | nul {ws v vs : Text} (hws : Blanks ws) (hv : Scalar v) (hvs : Blanks vs) (rest : Text) :
      Slack (ws ++ (v ++ (vs ++ 0 :: rest)))

/-- **The text of a scalar that is read is JSON**, unless the reader is lenient with it. -/
theorem element_or_slack {ws v r : Text} (hws : Blanks ws) (hv : Scalar v) (hr : Trailing r) :
    Grammar.Element (ws ++ (v ++ r)) ∨ Slack (ws ++ (v ++ r)) := by
  cases hr with
  | nul hvs rest => exact Or.inr (.nul hws hv hvs rest)
  | blanks hvs =>
    cases hv with
    | null => exact Or.inl (.mk hws .null hvs)
    | bool b => exact Or.inl (.mk hws (.bool b) hvs)
    | number s hu => exact Or.inl (.mk hws (.number s hu) hvs)
    | plus hu hfits => exact Or.inr (.plus hws hu hfits hvs)
    | @string u hu =>
      by_cases hraw : (∃ b ∈ u, b.toNat < 32) ∨ ¬ Text.Utf8 u
      · exact Or.inr (.string hws hu hraw hvs)
      · rw [not_or, not_not] at hraw
        have hcontrol : ∀ b ∈ u, 32 ≤ b.toNat := fun b hb =>
          not_lt.mp fun hlt => hraw.1 ⟨b, hb, hlt⟩
        exact Or.inl (.mk hws (.string (hu.characters hcontrol hraw.2)) hvs)

theorem Slack.exists_read? {t : Text} (h : Slack t) : ∃ j, read? t = some j := by
  cases h with
  | plus hws hu hfits hvs => exact exists_read?_of_scalar hws (.plus hu hfits) (.blanks hvs)
  | string hws hu _ hvs => exact exists_read?_of_scalar hws (.string hu) (.blanks hvs)
  | nul hws hv hvs rest => exact exists_read?_of_scalar hws hv (.nul hvs rest)

/-- A JSON text that starts with a minus sign goes on with a digit. -/
theorem Grammar.not_element_minus {b : UInt8} (hb : isDigit b = false) (r : Text) :
    ¬ Element (45 :: b :: r) := by
  intro h
  generalize ht : 45 :: b :: r = t at h
  obtain @⟨ws, v, vs, hws, hv, -⟩ := h
  cases ws with
  | cons w ws =>
    have hblank := hws w (.head _)
    rw [← (List.cons.inj ht).1] at hblank
    cases hblank
  | nil =>
    rw [List.nil_append] at ht
    cases hv with
    | number s hu =>
      obtain ⟨d, u, rfl, hd⟩ := hu.head
      cases s with
      | true =>
        rw [← (List.cons.inj (List.cons.inj ht).2).1, hb] at hd
        cases hd
      | false =>
        rw [if_neg Bool.false_ne_true, List.cons_append] at ht
        rw [← (List.cons.inj ht).1] at hd
        cases hd
    | bool b => cases b <;> cases ht
    | null | string | emptyArray | array | emptyObject | object =>
      exact absurd (List.cons.inj ht).1 (by decide)

theorem Blanks.exists_chars {ws : Text} (h : Blanks ws) :
    ∃ cs : List Char, (∀ c ∈ cs, (Glyph.char c).isBlank) ∧ ws = Text.ofGlyphs (cs.map .char) := by
  induction ws with
  | nil => exact ⟨[], by simp, rfl⟩
  | cons b ws ih =>
    obtain ⟨hb, hws⟩ := List.forall_mem_cons.mp h
    obtain ⟨cs, hcs, rfl⟩ := ih hws
    obtain ⟨c, hc, hbytes⟩ : ∃ c : Char, (Glyph.char c).isBlank ∧ Glyph.bytes (.char c) = [b] := by
      rw [isBlank] at hb
      simp only [Bool.or_eq_true, beq_iff_eq] at hb
      rcases hb with ((rfl | rfl) | rfl) | rfl
      · exact ⟨' ', by decide, rfl⟩
      · exact ⟨'\t', by decide, rfl⟩
      · exact ⟨'\n', by decide, rfl⟩
      · exact ⟨'\r', by decide, rfl⟩
    refine ⟨c :: cs, List.forall_mem_cons.mpr ⟨hc, hcs⟩, ?_⟩
    have hcons : Text.ofGlyphs ((c :: cs).map .char) =
        Glyph.bytes (.char c) ++ Text.ofGlyphs (cs.map .char) := List.flatMap_cons
    rw [hcons, hbytes]
    rfl

end Json

namespace Literal

variable {t body : Text} {shape : Shape}

theorem shut_of_not_opens (h : ¬ Opens body) : Json.Shut body := by
  intro b hb hopen
  obtain ⟨ws, hws, hbody⟩ := Json.exists_blanks body
  obtain ⟨r, hr⟩ := List.head?_eq_some_iff.mp hb
  obtain ⟨cs, hcs, rfl⟩ := hws.exists_chars
  exact h ⟨cs, b, r, hcs, hopen, by rw [← hr]; exact hbody⟩

/-- A literal is kept just if its body is not read, unless it opens an array or an object. -/
theorem Marked.parse_eq_self_iff (h : Marked t shape body) (hopens : ¬ Opens body) :
    parse t = .ok (.str t) ↔ Json.read? body = none := by
  rw [parse, h.parseWith_eq_ok]
  constructor
  · intro hdenotes
    cases hread : Json.read? body with
    | none => rfl
    | some j =>
      rw [hread] at hdenotes
      obtain ⟨-, -, -, -, -, -, -, hshort⟩ := Json.exists_scalar (shut_of_not_opens hopens) hread
      cases hdenotes with
      | string hs =>
        subst hs
        cases h
        exact absurd (hshort t rfl) (lt_irrefl _)
      | container hholds =>
        obtain ⟨b, xs, hv⟩ := hholds.exists_filled
        cases hv
  · intro hread
    rw [hread]
    exact .bare hopens

/-- **Bare text is kept, but for what the reader takes beyond JSON.**  A literal whose body is no
JSON, and opens neither an array nor an object, is the string of all its bytes, unless the body is
one of three kinds: a number with a plus sign behind its minus sign, a string with control characters
behind an escape or with bytes that are no UTF-8, or a scalar with a NUL byte behind it. -/
theorem bare_text_kept_iff (h : Marked t shape body) (hjson : ¬ Json.Grammar.Element body)
    (hopens : ¬ Opens body) : parse t = .ok (.str t) ↔ ¬ Json.Slack body := by
  rw [h.parse_eq_self_iff hopens]
  constructor
  · rintro hnone hslack
    obtain ⟨j, hj⟩ := hslack.exists_read?
    rw [hnone] at hj
    cases hj
  · intro hslack
    by_contra hread
    obtain ⟨j, hj⟩ := Option.ne_none_iff_exists'.mp hread
    obtain ⟨ws, v, r, hws, hv, hr, rfl, -⟩ := Json.exists_scalar (shut_of_not_opens hopens) hj
    rcases Json.element_or_slack hws hv hr with helement | hs
    · exact hjson helement
    · exact hslack hs

/-- A number without a whole part, behind a mark. -/
theorem bare_text_kept_point :
    let body := Text.ofString "-.5"
    let t := "q:" ++ body
    Marked t .queue body ∧ ¬ Json.Grammar.Element body ∧ ¬ Opens body ∧ ¬ Json.Slack body ∧
      parse t = .ok (.str t) := by
  intro body t
  have hmarked : Marked t .queue body := .queue body
  have hjson : ¬ Json.Grammar.Element body := Json.Grammar.not_element_minus rfl _
  have hopens : ¬ Opens body := by
    rw [← looksEnclosed_iff]
    decide
  have hparse : parse t = .ok (.str t) := rfl
  exact ⟨hmarked, hjson, hopens, (bare_text_kept_iff hmarked hjson hopens).mp hparse, hparse⟩

/-- **A plus sign behind a minus sign** makes a number of a text that is no JSON. -/
theorem bare_text_lost_plus :
    let t := Text.ofString "-+5"
    Marked t .array t ∧ ¬ Json.Grammar.Element t ∧ ¬ Opens t ∧
      parse t = .ok (.num (.finite true ⟨0x4014000000000000, by decide⟩)) ∧
      parse t ≠ .ok (.str t) := by
  intro t
  have hjson : ¬ Json.Grammar.Element t := Json.Grammar.not_element_minus rfl _
  have hopens : ¬ Opens t := by
    rw [← looksEnclosed_iff]
    decide
  have hread : Json.read? t = some (.number (.finite true ⟨0x4014000000000000, by decide⟩)) := by
    have hplus : Json.Plus (Text.ofString "+5") :=
      @Json.Plus.digits [5] [] [] (by simp) (by simp) .none .none
    have hvalue : Json.numberOf? true (Text.ofString "+5") =
        some (.finite true ⟨0x4014000000000000, by decide⟩) := by
      decide +kernel
    have hnumber := Json.number?_of_bytes (Json.isNumeric_of_form (Or.inr hplus)) (by simp) hvalue
      Json.ends_nil
    refine Json.read?_eq_some_iff.mpr ⟨[], ?_, .blanks Json.blanks_nil⟩
    change Json.value? _ _ (45 :: Text.ofString "+5") = _
    rw [if_pos rfl, List.append_nil] at hnumber
    rw [Json.value?_number (Or.inl rfl), hnumber]
    rfl
  have hparse : parse t = .ok (.num (.finite true ⟨0x4014000000000000, by decide⟩)) := by
    rw [parse_eq_ok]
    change Denotes t .array t (Json.read? t) _
    rw [hread]
    exact .number rfl _
  refine ⟨.array (by decide) (by decide), hjson, hopens, hparse, ?_⟩
  rw [hparse]
  intro h
  cases h

end Literal

end Colloquy
