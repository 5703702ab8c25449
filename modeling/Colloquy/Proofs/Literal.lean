import Colloquy.Literal
import Colloquy.Proofs.Rendering
import Colloquy.Proofs.Text.Glyph
import Mathlib.Data.List.TakeWhile
import Mathlib.Data.Set.List

/-!
# The language of literals

A literal is a mark, `q:` or `s:` or none, and a body (`Marked`).  What becomes of it depends on
what the body denotes as a JSON text, if anything.  `Rejected` lists the literals that have no value,
and `Denotes` gives the value of the others.

* `parse_eq_ok`: a literal has exactly the value that it denotes.
* `exists_denotes_iff`: it denotes a value exactly if it is not rejected.
* `Denotes.renderable`, `Denotes.kind_ne_unknown`: its value is one that programs can declare and
  say.
-/

namespace Colloquy

/-! ### Blanks at the start of a text -/

namespace Text

theorem ofGlyphs_append (gs hs : List Glyph) : ofGlyphs (gs ++ hs) = ofGlyphs gs ++ ofGlyphs hs :=
  List.flatMap_append

/-- Only characters are blank, so the blanks of a text are a list of characters. -/
theorem exists_blanks (t : Text) : ∃ ws : List Char, (∀ c ∈ ws, (Glyph.char c).isBlank) ∧
    t = ofGlyphs (ws.map .char) ++ t.trimStart := by
  have hsplit : t = ofGlyphs (t.glyphs.takeWhile Glyph.isBlank) ++ t.trimStart := by
    rw [trimStart, ← ofGlyphs_append, List.takeWhile_append_dropWhile, ofGlyphs_glyphs]
  have hchars (gs : List Glyph) (h : ∀ g ∈ gs, g.isBlank) : ∃ ws : List Char, ws.map .char = gs := by
    induction gs with
    | nil => exact ⟨[], rfl⟩
    | cons g gs ih =>
      obtain ⟨ws, rfl⟩ := ih fun g hg => h g (.tail _ hg)
      cases g with
      | char c => exact ⟨c :: ws, rfl⟩
      | stray b => exact absurd (h (.stray b) (.head _)) (by simp [Glyph.isBlank])
  have hblank : ∀ g ∈ t.glyphs.takeWhile Glyph.isBlank, g.isBlank :=
    fun g hg => List.mem_takeWhile_imp hg
  obtain ⟨ws, hws⟩ := hchars _ hblank
  refine ⟨ws, fun c hc => hblank _ ?_, by rw [hws]; exact hsplit⟩
  rw [← hws]
  exact List.mem_map_of_mem hc

theorem trimStart_blanks_append {ws : List Char} (h : ∀ c ∈ ws, (Glyph.char c).isBlank) (t : Text) :
    (ofGlyphs (ws.map .char) ++ t).trimStart = t.trimStart := by
  induction ws with
  | nil => rfl
  | cons c ws ih =>
    rw [← ih fun c hc => h c (.tail _ hc), List.map_cons, ofGlyphs, List.flatMap_cons,
      List.append_assoc, ← ofGlyphs, trimStart, glyphs_char_append,
      List.dropWhile_cons_of_pos (h c (.head _)), ← trimStart]

theorem trimStart_of_not_blank {t : Text} {g : Glyph} {gs : List Glyph} (ht : t.glyphs = g :: gs)
    (hg : ¬ g.isBlank) : t.trimStart = t := by
  rw [trimStart, ht, List.dropWhile_cons_of_neg hg, ← ht, ofGlyphs_glyphs]

end Text

namespace Literal

/-- **A text that opens an array or an object**: after white space stands a bracket or a brace. -/
def Opens (t : Text) : Prop :=
  ∃ (ws : List Char) (b : UInt8) (r : Text), (∀ c ∈ ws, (Glyph.char c).isBlank) ∧
    (b = 91 ∨ b = 123) ∧ t = Text.ofGlyphs (ws.map .char) ++ b :: r

theorem trimStart_bracket {b : UInt8} (hb : b = 91 ∨ b = 123) (r : Text) :
    Text.trimStart (b :: r) = b :: r := by
  have hg : ∃ c, Text.glyphs (b :: r) = .char c :: Text.glyphs r ∧ (Glyph.char c).isBlank = false := by
    rcases hb with rfl | rfl
    · exact ⟨.ofNat 91, rfl, by decide⟩
    · exact ⟨.ofNat 123, rfl, by decide⟩
  obtain ⟨c, hc, hblank⟩ := hg
  exact Text.trimStart_of_not_blank hc (by simp [hblank])

theorem looksEnclosed_iff {t : Text} : looksEnclosed t = true ↔ Opens t := by
  unfold looksEnclosed
  constructor
  · intro h
    obtain ⟨ws, hws, ht⟩ := Text.exists_blanks t
    split at h
    · next b r hr => exact ⟨ws, b, r, hws, by simpa using h, by rw [← hr]; exact ht⟩
    · cases h
  · rintro ⟨ws, b, r, hws, hb, rfl⟩
    rw [Text.trimStart_blanks_append hws, trimStart_bracket hb]
    simpa using hb

/-! ### Marks -/

/-- **The mark of a literal**: the shape that it asks for, and the body that follows. -/
inductive Marked : Text → Shape → Text → Prop
  | queue (body : Text) : Marked ("q:" ++ body) .queue body
  | stack (body : Text) : Marked ("s:" ++ body) .stack body
  | array {t : Text} (hq : ¬ Text.ofString "q:" <+: t) (hs : ¬ Text.ofString "s:" <+: t) :
      Marked t .array t

theorem marked_split (t : Text) : Marked t (split t).1 (split t).2 := by
  unfold split
  split
  · exact .queue _
  · exact .stack _
  · next hq hs =>
    refine .array ?_ ?_
    · rintro ⟨r, rfl⟩; exact hq r rfl
    · rintro ⟨r, rfl⟩; exact hs r rfl

/-! ### Items -/

/-- Items that are all numbers, all strings or all booleans. -/
def Uniform (js : List Json) : Prop :=
  (∀ j ∈ js, ∃ x, j = .number x) ∨ (∀ j ∈ js, ∃ t, j = .string t) ∨ ∀ j ∈ js, ∃ b, j = .bool b

/-- **A container of scalars** of a base type, by its shape: a slice, or a queue or a stack on which
they were pushed in their order. -/
inductive Filled (b : Base) (xs : List b.Carrier) : Shape → Value → Prop
  | array : Filled b xs .array (.slice none (.scalar ⟨none, b⟩) (some xs))
  | queue : Filled b xs .queue (.queue ⟨none, b⟩ (some (.ofList xs)))
  | stack : Filled b xs .stack (.stack ⟨none, b⟩ (some (.ofList xs)))

/-- **The container that an array stands for.**  An empty array is one of numbers. -/
inductive Holds (shape : Shape) : List Json → Value → Prop
  | numbers {xs : List Double} {v : Value} (hv : Filled .double xs shape v) :
      Holds shape (xs.map .number) v
  | strings {ts : List Text} {v : Value} (h : ts ≠ []) (hv : Filled .text ts shape v) :
      Holds shape (ts.map .string) v
  | bools {bs : List Bool} {v : Value} (h : bs ≠ []) (hv : Filled .truth bs shape v) :
      Holds shape (bs.map .bool) v

theorem filled_iff {b : Base} {xs : List b.Carrier} {shape : Shape} {v : Value} :
    Filled b xs shape v ↔ shape.hold b xs = v := by
  constructor
  · rintro (_ | _ | _) <;> rfl
  · rintro rfl
    cases shape with
    | array => exact .array
    | queue => exact .queue
    | stack => exact .stack

theorem cast?_double {j : Json} {x : Double} : cast? .double j = some x ↔ .number x = j := by
  cases j <;> simp [cast?, eq_comm]

theorem cast?_text {j : Json} {t : Text} : cast? .text j = some t ↔ .string t = j := by
  cases j <;> simp [cast?, eq_comm]

theorem cast?_truth {j : Json} {b : Bool} : cast? .truth j = some b ↔ .bool b = j := by
  cases j <;> simp [cast?, eq_comm]

/-- Items are collected if each of them is a scalar of the base type, as `item` says. -/
theorem collect_eq_ok {b : Base} {item : b.Carrier → Json}
    (hcast : ∀ j x, cast? b j = some x ↔ item x = j) {i : ℕ} {js : List Json}
    {xs : List b.Carrier} : collect b i js = .ok xs ↔ xs.map item = js := by
  induction js generalizing i xs with
  | nil => rw [collect, Except.ok.injEq, List.map_eq_nil_iff, eq_comm]
  | cons j js ih =>
    rw [collect, List.map_eq_cons_iff]
    split
    · next x hx =>
      rw [Outcome.map_eq_ok]
      constructor
      · rintro ⟨ys, hys, rfl⟩
        exact ⟨x, ys, rfl, (hcast j x).mp hx, ih.mp hys⟩
      · rintro ⟨y, ys, rfl, hy, hys⟩
        obtain rfl := Option.some.inj (hx.symm.trans ((hcast j y).mpr hy))
        exact ⟨ys, ih.mpr hys, rfl⟩
    · next hn =>
      refine ⟨fun h => (by cases h), ?_⟩
      rintro ⟨y, ys, rfl, hy, -⟩
      rw [(hcast j y).mpr hy] at hn
      cases hn

theorem build_of_base {b : Base} {item : b.Carrier → Json}
    (hcast : ∀ j x, cast? b j = some x ↔ item x = j) {shape : Shape} {js : List Json} {v : Value}
    (hb : baseOf? js = some b) :
    build shape js = .ok v ↔ ∃ xs : List b.Carrier, xs.map item = js ∧ Filled b xs shape v := by
  simp only [build, hb, Outcome.map_eq_ok, collect_eq_ok hcast, filled_iff]

theorem build_eq_ok {shape : Shape} {js : List Json} {v : Value} :
    build shape js = .ok v ↔ Holds shape js v := by
  constructor
  · -- the first item settles the base type
    intro h
    rcases js with _ | ⟨_ | b | x | t | items | members, js⟩
    · obtain ⟨xs, hxs, hv⟩ := (build_of_base (fun _ _ => cast?_double) rfl).mp h
      exact hxs ▸ .numbers hv
    · cases h
    · obtain ⟨bs, hbs, hv⟩ := (build_of_base (fun _ _ => cast?_truth) rfl).mp h
      exact hbs ▸ .bools (by rintro rfl; cases hbs) hv
    · obtain ⟨xs, hxs, hv⟩ := (build_of_base (fun _ _ => cast?_double) rfl).mp h
      exact hxs ▸ .numbers hv
    · obtain ⟨ts, hts, hv⟩ := (build_of_base (fun _ _ => cast?_text) rfl).mp h
      exact hts ▸ .strings (by rintro rfl; cases hts) hv
    · cases h
    · cases h
  · intro h
    cases h with
    | @numbers xs v hv =>
      exact (build_of_base (fun _ _ => cast?_double) (by cases xs <;> rfl)).mpr ⟨xs, rfl, hv⟩
    | @strings ts v hne hv =>
      refine (build_of_base (fun _ _ => cast?_text) ?_).mpr ⟨ts, rfl, hv⟩
      cases ts with
      | nil => exact absurd rfl hne
      | cons t ts => rfl
    | @bools bs v hne hv =>
      refine (build_of_base (fun _ _ => cast?_truth) ?_).mpr ⟨bs, rfl, hv⟩
      cases bs with
      | nil => exact absurd rfl hne
      | cons b bs => rfl

theorem exists_map_eq {α : Type} {f : α → Json} {js : List Json} (h : ∀ j ∈ js, ∃ x, j = f x) :
    ∃ xs : List α, xs.map f = js := by
  have hrange : js ∈ { l | ∀ j ∈ l, j ∈ Set.range f } := fun j hj => (h j hj).imp fun _ => Eq.symm
  rwa [← Set.range_list_map] at hrange

theorem exists_holds_iff {shape : Shape} {js : List Json} :
    (∃ v, Holds shape js v) ↔ js = [] ∨ Uniform js := by
  constructor
  · rintro ⟨v, _ | _ | _⟩
    · exact .inr (.inl (List.forall_mem_map.mpr fun x _ => ⟨x, rfl⟩))
    · exact .inr (.inr (.inl (List.forall_mem_map.mpr fun t _ => ⟨t, rfl⟩)))
    · exact .inr (.inr (.inr (List.forall_mem_map.mpr fun b _ => ⟨b, rfl⟩)))
  · intro h
    rcases eq_or_ne js [] with rfl | hne
    · exact ⟨_, (.numbers (filled_iff.mpr rfl) : Holds shape (([] : List Double).map .number) _)⟩
    rcases h.resolve_left hne with h | h | h <;> obtain ⟨xs, rfl⟩ := exists_map_eq h
    · exact ⟨_, .numbers (filled_iff.mpr rfl)⟩
    · exact ⟨_, .strings (by rintro rfl; exact hne rfl) (filled_iff.mpr rfl)⟩
    · exact ⟨_, .bools (by rintro rfl; exact hne rfl) (filled_iff.mpr rfl)⟩

/-! ### Literals -/

/-- **The literals without a value**, by their shape, their body and what it denotes. -/
inductive Rejected (shape : Shape) (body : Text) : Option Json → Prop
  /-- It looks like an array or an object, but is no JSON text. -/
  | malformed (h : Opens body) : Rejected shape body none
  /-- It asks for a queue or a stack, but holds no array. -/
  | notArray {j : Json} (hs : shape ≠ .array) (hj : ∀ js, j ≠ .array js) :
      Rejected shape body (some j)
  | null (hs : shape = .array) : Rejected shape body (some .null)
  | object (hs : shape = .array) (members : List (Text × Json)) :
      Rejected shape body (some (.object members))
  | mixed {js : List Json} (hne : js ≠ []) (hj : ¬ Uniform js) :
      Rejected shape body (some (.array js))

/-- **The value of a literal** `t`, by its shape, its body and what that denotes. -/
inductive Denotes (t : Text) (shape : Shape) (body : Text) : Option Json → Value → Prop
  /-- A text that is no JSON is a string by itself, with its mark. -/
  | bare (h : ¬ Opens body) : Denotes t shape body none (.str t)
  | number (hs : shape = .array) (x : Double) : Denotes t shape body (some (.number x)) (.num x)
  | string (hs : shape = .array) (u : Text) : Denotes t shape body (some (.string u)) (.str u)
  | bool (hs : shape = .array) (b : Bool) : Denotes t shape body (some (.bool b)) (.bool b)
  | container {js : List Json} {v : Value} (h : Holds shape js v) :
      Denotes t shape body (some (.array js)) v

theorem exists_denotes_iff {t : Text} {shape : Shape} {body : Text} {j : Option Json} :
    (∃ v, Denotes t shape body j v) ↔ ¬ Rejected shape body j := by
  constructor
  · rintro ⟨v, h⟩ hr
    cases h with
    | bare h => cases hr; contradiction
    | number hs | string hs | bool hs => cases hr; contradiction
    | container h =>
      cases hr with
      | notArray _ hj => exact hj _ rfl
      | mixed hne hj => exact (exists_holds_iff.mp ⟨v, h⟩).elim hne hj
  · intro hr
    cases j with
    | none => exact ⟨_, .bare fun h => hr (.malformed h)⟩
    | some j =>
      have hscalar (hj : ∀ js, j ≠ .array js) : shape = .array := by
        by_contra hs
        exact hr (.notArray hs hj)
      cases j with
      | null => exact absurd (.null (hscalar (by simp))) hr
      | object members => exact absurd (.object (hscalar (by simp)) members) hr
      | number x => exact ⟨_, .number (hscalar (by simp)) x⟩
      | string u => exact ⟨_, .string (hscalar (by simp)) u⟩
      | bool b => exact ⟨_, .bool (hscalar (by simp)) b⟩
      | array js =>
        have hjs : js = [] ∨ Uniform js := by
          by_contra hn
          rw [not_or] at hn
          exact hr (.mixed hn.1 hn.2)
        obtain ⟨v, hv⟩ := exists_holds_iff.mpr hjs
        exact ⟨v, .container hv⟩

theorem interpret_eq_ok {t : Text} {shape : Shape} {body : Text} {j : Json} {v : Value} :
    interpret shape j = .ok v ↔ Denotes t shape body (some j) v := by
  constructor
  · intro h
    unfold interpret at h
    split at h
    · exact .container (build_eq_ok.mp h)
    · cases h; exact .number rfl _
    · cases h; exact .string rfl _
    · cases h; exact .bool rfl _
    · cases h
    · exact .container (build_eq_ok.mp h)
    · cases h
  · intro h
    cases h with
    | number hs | string hs | bool hs => subst hs; rfl
    | container h => cases shape <;> exact build_eq_ok.mpr h

/-- **What is denoted is what is parsed**, whichever texts the decoder takes for JSON. -/
theorem parseWith_eq_ok {decode : Text → Option Json} {t : Text} {v : Value} :
    parseWith decode t = .ok v ↔ Denotes t (split t).1 (split t).2 (decode (split t).2) v := by
  unfold parseWith
  dsimp only
  cases decode (split t).2 with
  | some j => exact Outcome.mapError_eq_ok.trans interpret_eq_ok
  | none =>
    dsimp only
    split_ifs with h
    · rw [looksEnclosed_iff] at h
      refine ⟨fun hv => (by cases hv), fun hv => ?_⟩
      cases hv
      contradiction
    · rw [looksEnclosed_iff] at h
      constructor
      · intro hv
        cases hv
        exact .bare h
      · intro hv
        cases hv
        rfl

/-! ### The values of literals -/

section Filled
variable {b : Base} {xs : List b.Carrier} {shape : Shape} {v : Value}

theorem Filled.renderable (h : Filled b xs shape v) : v.Renderable := by
  have hbase (ys : List b.Carrier) : ∀ e ∈ ys.map (Value.scalar ⟨none, b⟩), e.IsBase :=
    List.forall_mem_map.mpr fun y _ => ⟨b, y, rfl⟩
  right
  cases h with
  | array => exact ⟨_, rfl, hbase xs⟩
  | queue => exact ⟨_, rfl, hbase xs⟩
  | stack => exact ⟨_, rfl, hbase xs.reverse⟩

theorem Filled.kind_eq (h : Filled b xs shape v) : v.kind = shape.kind := by
  cases h <;> rfl

theorem Holds.exists_filled {js : List Json} (h : Holds shape js v) :
    ∃ (b : Base) (xs : List b.Carrier), Filled b xs shape v := by
  cases h with
  | numbers hv | strings _ hv | bools _ hv => exact ⟨_, _, hv⟩

end Filled

section Denotes
variable {t : Text} {shape : Shape} {body : Text} {j : Option Json} {v : Value}

theorem Denotes.renderable (h : Denotes t shape body j v) : v.Renderable := by
  cases h with
  | bare | number | string | bool => exact .inl ⟨_, _, rfl⟩
  | container h =>
    obtain ⟨b, xs, hv⟩ := h.exists_filled
    exact hv.renderable

theorem Denotes.kind_ne_unknown (h : Denotes t shape body j v) : v.kind ≠ .unknown := by
  have hbase (b : Base) : b.kind ≠ .unknown := by cases b <;> decide
  cases h with
  | bare | string => exact hbase .text
  | number => exact hbase .double
  | bool => exact hbase .truth
  | container h =>
    obtain ⟨b, xs, hv⟩ := h.exists_filled
    rw [hv.kind_eq]
    cases shape <;> decide

end Denotes

theorem parse_eq_ok {t : Text} {v : Value} :
    parse t = .ok v ↔ Denotes t (split t).1 (split t).2 (Json.read? (split t).2) v :=
  parseWith_eq_ok

theorem renderable_of_parse {t : Text} {v : Value} (h : parse t = .ok v) : v.Renderable :=
  (parse_eq_ok.mp h).renderable

/-- **The language of literals.**  Every text has one mark and one body.  It is refused exactly if it
is rejected for what its body denotes, and otherwise has exactly the value that it denotes.  That
value is of a kind that programs can declare, and has a rendering. -/
theorem literal_language (t : Text) :
    ∃ shape body, Marked t shape body ∧
      ((∃ e, parse t = .error e) ↔ Rejected shape body (Json.read? body)) ∧
      (∀ v, parse t = .ok v ↔ Denotes t shape body (Json.read? body) v) ∧
      ∀ v, parse t = .ok v → v.kind ≠ .unknown ∧ ∃ r, v.format = .ok r := by
  refine ⟨(split t).1, (split t).2, marked_split t, ?_, fun v => parse_eq_ok, fun v hv => ?_⟩
  · rw [← not_iff_not, ← exists_denotes_iff (t := t)]
    simp only [← parse_eq_ok]
    cases parse t <;> simp
  · have hd := parse_eq_ok.mp hv
    obtain ⟨r, hr⟩ := (Value.renderable_iff .plain).mp hd.renderable
    exact ⟨hd.kind_ne_unknown, r, Value.render_eq_ok.mpr hr⟩

end Literal

end Colloquy
