import Colloquy.DeclaredType
import Colloquy.Proofs.Text.Fields

/-!
# Declarations

A declaration is one of the words for scalars, perhaps after a letter for a container
(`DeclaredType.Declares`).  Which names belong to which kinds does not depend on the order in which
the names are looked through, since no two kinds share one (`Kind.Walk.ofName?_eq_some`).  A kind
without a name of its own is written in a way that no declaration is, so a type is read back from its
text exactly if it can be declared (`DeclaredType.parse_text`).
-/

namespace Colloquy

/-! ### Names of kinds -/

namespace Kind

theorem eq_of_mem_names {p q : Kind × Text} (hp : p ∈ names) (hq : q ∈ names) (h : p.2 = q.2) :
    p = q := by
  have hinj : ∀ p ∈ names, ∀ q ∈ names, p.2 = q.2 → p = q := by decide
  exact hinj p hp q hq h

theorem name_cases (k : Kind) : (k, k.name) ∈ names ∨
    (∀ n, (k, n) ∉ names) ∧ k.name = "Kind(" ++ Text.ofInt k.code ++ ")" := by
  unfold name
  cases h : names.lookup k with
  | some n =>
    obtain ⟨l₁, l₂, hl, -⟩ := List.lookup_eq_some_iff.mp h
    exact .inl (by rw [hl]; simp)
  | none =>
    refine .inr ⟨fun n hn => ?_, rfl⟩
    simpa using List.lookup_eq_none_iff.mp h (k, n) hn

/-- **What a kind is called, no other kind is called.** -/
theorem mem_names_name {j k : Kind} : (j, k.name) ∈ names ↔ j = k ∧ (k, k.name) ∈ names := by
  constructor
  · intro h
    rcases name_cases k with hk | ⟨-, hk⟩
    · have hjk := eq_of_mem_names h hk rfl
      exact ⟨congrArg Prod.fst hjk, hk⟩
    · -- no name starts like a number in place of one
      have hfirst : ∀ p ∈ names, p.2.head? ≠ some 75 := by decide
      have hk' : k.name.head? = some 75 := by rw [hk]; rfl
      exact absurd hk' (hfirst _ h)
  · rintro ⟨rfl, h⟩
    exact h

theorem eq_of_name_eq {j k : Kind} (hj : (j, j.name) ∈ names) (h : j.name = k.name) : j = k := by
  rw [h] at hj
  exact (mem_names_name.mp hj).1

theorem word_name (k : Kind) : Text.Word k.name := by
  rcases name_cases k with hk | ⟨-, hk⟩
  · have hwords : ∀ p ∈ names, p.2 ≠ [] ∧ p.2.all Text.isVisible = true := by decide
    exact ⟨(hwords _ hk).1, (hwords _ hk).2⟩
  · rw [hk]
    refine ⟨List.append_ne_nil_of_left_ne_nil (List.append_ne_nil_of_left_ne_nil (by decide) _) _, ?_⟩
    rw [List.all_append, List.all_append, Text.all_isVisible_ofInt]
    decide

theorem mem_names_iff {k : Kind} {n : Text} : (k, n) ∈ names ↔ (k, k.name) ∈ names ∧ k.name = n := by
  have hname : ∀ p ∈ names, p.1.name = p.2 := by decide
  constructor
  · intro h
    have hn := hname _ h
    exact ⟨by rw [hn]; exact h, hn⟩
  · rintro ⟨h, rfl⟩
    exact h

/-- **The kind with a name** is found on every walk through the names.  The unknown kind cannot be
called by its name. -/
theorem Walk.ofName?_eq_some {w : Walk} {n : Text} {k : Kind} :
    w.ofName? n = some k ↔ k ≠ unknown ∧ (k, n) ∈ names := by
  have hmem (p : Kind × Text) : p ∈ w.order ↔ p ∈ names := w.perm.mem_iff
  unfold ofName?
  constructor
  · intro h
    obtain ⟨p, hp, rfl⟩ := Option.map_eq_some_iff.mp h
    have hfound := List.find?_some hp
    simp only [Bool.and_eq_true, bne_iff_ne, beq_iff_eq] at hfound
    exact ⟨hfound.1, by rw [← hfound.2, ← hmem]; exact List.mem_of_find?_eq_some hp⟩
  · rintro ⟨hk, hn⟩
    cases hp : w.order.find? fun p => p.1 != unknown && p.2 == n with
    | none =>
      have hnone := List.find?_eq_none.mp hp (k, n) ((hmem _).mpr hn)
      simp [hk] at hnone
    | some p =>
      have hfound := List.find?_some hp
      simp only [Bool.and_eq_true, beq_iff_eq] at hfound
      have hp' := (hmem p).mp (List.mem_of_find?_eq_some hp)
      rw [Option.map_some, eq_of_mem_names hp' hn hfound.2]

theorem isScalar_iff {k : Kind} : k.isScalar = true ↔ k = num ∨ k = str ∨ k = bool := by
  simp [isScalar, or_assoc]

theorem isContainer_iff {k : Kind} : k.isContainer = true ↔ k = array ∨ k = queue ∨ k = stack := by
  simp [isContainer, or_assoc]

theorem Walk.filter_ofName? {w : Walk} {n : Text} {k : Kind} {p : Kind → Bool}
    (hp : ∀ k, p k = true → k ≠ unknown ∧ (k, k.name) ∈ names) :
    (w.ofName? n).filter p = some k ↔ p k = true ∧ k.name = n := by
  rw [Option.filter_eq_some_iff, ofName?_eq_some, mem_names_iff]
  constructor
  · rintro ⟨⟨-, -, hn⟩, hk⟩
    exact ⟨hk, hn⟩
  · rintro ⟨hk, hn⟩
    exact ⟨⟨(hp k hk).1, (hp k hk).2, hn⟩, hk⟩

theorem mem_names_of_isScalar {k : Kind} (h : k.isScalar = true) :
    k ≠ unknown ∧ (k, k.name) ∈ names := by
  rcases isScalar_iff.mp h with rfl | rfl | rfl <;> decide

theorem mem_names_of_isContainer {k : Kind} (h : k.isContainer = true) :
    k ≠ unknown ∧ (k, k.name) ∈ names := by
  rcases isContainer_iff.mp h with rfl | rfl | rfl <;> decide

end Kind

/-! ### Types -/

namespace DeclaredType

/-- **A type that can be declared**: that of a scalar, or of a container of scalars. -/
def Declarable (t : DeclaredType) : Prop :=
  t.elem.isScalar = true ∧ (t.container = .unknown ∨ t.container.isContainer = true)

/-- The names of which the text of a type is made up. -/
def words (t : DeclaredType) : List Text :=
  if t.container = .unknown then [t.elem.name] else [t.container.name, t.elem.name]

theorem text_eq_join (t : DeclaredType) : t.text = Text.join " " t.words := by
  unfold text words
  split_ifs
  · simp [Text.join]
  · simp [Text.join, List.intercalate_cons_cons]

theorem fields_text (t : DeclaredType) : t.text.fields = t.words := by
  rw [text_eq_join]
  refine Text.fields_join fun n hn => ?_
  unfold words at hn
  split_ifs at hn
  · obtain rfl := List.mem_singleton.mp hn
    exact t.elem.word_name
  · rcases List.mem_pair.mp hn with rfl | rfl
    · exact t.container.word_name
    · exact t.elem.word_name

theorem ofNames?_eq_some {v w : Kind.Walk} {fs : List Text} {d : DeclaredType} :
    ofNames? v w fs = some d ↔ d.Declarable ∧ d.words = fs := by
  have hscalar {u : Kind.Walk} {n : Text} {k : Kind} :
      (u.ofName? n).filter Kind.isScalar = some k ↔ k.isScalar = true ∧ k.name = n :=
    Kind.Walk.filter_ofName? fun _ => Kind.mem_names_of_isScalar
  have hcontainer {u : Kind.Walk} {n : Text} {k : Kind} :
      (u.ofName? n).filter Kind.isContainer = some k ↔ k.isContainer = true ∧ k.name = n :=
    Kind.Walk.filter_ofName? fun _ => Kind.mem_names_of_isContainer
  constructor
  · intro h
    unfold ofNames? at h
    split at h
    · obtain ⟨k, hk, hd⟩ := Option.bind_eq_some_iff.mp h
      obtain rfl := Option.some.inj hd
      obtain ⟨hscalar, rfl⟩ := hscalar.mp hk
      exact ⟨⟨hscalar, .inl rfl⟩, rfl⟩
    · obtain ⟨c, hc, hd⟩ := Option.bind_eq_some_iff.mp h
      obtain ⟨k, hk, hd⟩ := Option.bind_eq_some_iff.mp hd
      obtain rfl := Option.some.inj hd
      obtain ⟨hcontainer, rfl⟩ := hcontainer.mp hc
      obtain ⟨hscalar, rfl⟩ := hscalar.mp hk
      exact ⟨⟨hscalar, .inr hcontainer⟩, if_neg (Kind.mem_names_of_isContainer hcontainer).1⟩
    · cases h
  · rintro ⟨⟨hk, hc⟩, rfl⟩
    obtain ⟨c, k⟩ := d
    rcases hc with rfl | hc
    · have hk' := hscalar (u := v).mpr ⟨hk, rfl⟩
      simp [words, ofNames?, hk']
    · have hk' := hscalar (u := w).mpr ⟨hk, rfl⟩
      have hc' := hcontainer (u := v).mpr ⟨hc, rfl⟩
      simp [words, ofNames?, hk', hc', (Kind.mem_names_of_isContainer hc).1]

theorem parseAlong_eq_ok {v w : Kind.Walk} {s : Text} {d : DeclaredType} :
    parseAlong v w s = .ok d ↔ d.Declarable ∧ d.words = s.fields := by
  rw [← ofNames?_eq_some (v := v) (w := w), parseAlong]
  cases ofNames? v w s.fields <;> simp

theorem eq_unknownType_of_parseAlong {v w : Kind.Walk} {s : Text} {e : Error}
    (h : parseAlong v w s = .error e) : e = .unknownType s := by
  unfold parseAlong at h
  split at h
  · cases h
  · cases h
    rfl

theorem parseAlong_eq_parse (v w : Kind.Walk) (s : Text) : parseAlong v w s = parse s := by
  cases h : parseAlong v w s with
  | ok d => exact (parseAlong_eq_ok.mpr (parseAlong_eq_ok.mp h)).symm
  | error e =>
    obtain rfl := eq_unknownType_of_parseAlong h
    cases h' : parse s with
    | ok d =>
      rw [parseAlong_eq_ok.mpr (parseAlong_eq_ok.mp h')] at h
      cases h
    | error e => rw [eq_unknownType_of_parseAlong h']

theorem Declarable.eq_of_words_eq {d t : DeclaredType} (hd : d.Declarable) (h : d.words = t.words) :
    d = t := by
  obtain ⟨c, e⟩ := d
  obtain ⟨c', e'⟩ := t
  obtain ⟨he, hc⟩ := hd
  have helem (hname : e.name = e'.name) : e = e' :=
    Kind.eq_of_name_eq (Kind.mem_names_of_isScalar he).2 hname
  unfold words at h
  dsimp only at h hc
  split_ifs at h with h1 h2 h2
  · rw [h1, h2, helem (List.singleton_injective h)]
  · simp at h
  · simp at h
  · simp only [List.cons.injEq, and_true] at h
    have hnamed := (Kind.mem_names_of_isContainer (hc.resolve_left h1)).2
    rw [helem h.2, Kind.eq_of_name_eq hnamed h.1]

/-- **A type is read back from its text** exactly if it can be declared. -/
theorem parse_text {t d : DeclaredType} : parse t.text = .ok d ↔ t.Declarable ∧ d = t := by
  rw [parse, parseAlong_eq_ok, fields_text]
  constructor
  · rintro ⟨hd, hwords⟩
    obtain rfl := hd.eq_of_words_eq hwords
    exact ⟨hd, rfl⟩
  · rintro ⟨ht, rfl⟩
    exact ⟨ht, rfl⟩

/-! ### Declarations -/

/-- The words for scalars. -/
def scalarWords : List Text := ["num", "str", "bool"]

/-- The letters for containers. -/
def containerLetters : List Text := ["a", "q", "s"]

/-- **The fields of a declaration**: a word, or a letter and a word. -/
inductive Declares : List Text → Prop
  | scalar {e : Text} (he : e ∈ scalarWords) : Declares [e]
  | container {c e : Text} (hc : c ∈ containerLetters) (he : e ∈ scalarWords) : Declares [c, e]

theorem mem_scalarWords {e : Text} :
    e ∈ scalarWords ↔ ∃ k : Kind, k.isScalar = true ∧ k.name = e := by
  have hwords : scalarWords = [Kind.num, .str, .bool].map Kind.name := by decide
  simp only [hwords, Kind.isScalar_iff, List.mem_map, List.mem_cons, List.not_mem_nil, or_false]

theorem mem_containerLetters {c : Text} :
    c ∈ containerLetters ↔ ∃ k : Kind, k.isContainer = true ∧ k.name = c := by
  have hletters : containerLetters = [Kind.array, .queue, .stack].map Kind.name := by decide
  simp only [hletters, Kind.isContainer_iff, List.mem_map, List.mem_cons, List.not_mem_nil, or_false]

theorem declares_iff {fs : List Text} :
    Declares fs ↔ ∃ d : DeclaredType, d.Declarable ∧ d.words = fs := by
  constructor
  · intro h
    cases h with
    | scalar he =>
      obtain ⟨k, hk, rfl⟩ := mem_scalarWords.mp he
      exact ⟨⟨.unknown, k⟩, ⟨hk, .inl rfl⟩, rfl⟩
    | container hletter he =>
      obtain ⟨c, hc, rfl⟩ := mem_containerLetters.mp hletter
      obtain ⟨k, hk, rfl⟩ := mem_scalarWords.mp he
      exact ⟨⟨c, k⟩, ⟨hk, .inr hc⟩, if_neg (Kind.mem_names_of_isContainer hc).1⟩
  · rintro ⟨⟨c, k⟩, ⟨hk, hc⟩, rfl⟩
    have he : k.name ∈ scalarWords := mem_scalarWords.mpr ⟨k, hk, rfl⟩
    rcases hc with rfl | hc
    · exact .scalar he
    · rw [words, if_neg (Kind.mem_names_of_isContainer hc).1]
      exact .container (mem_containerLetters.mpr ⟨c, hc, rfl⟩) he

/-- **Declarations.**  It does not matter in which order the names of kinds are looked through.  A
text declares a type exactly if white space divides it into a word, or into a letter and a word; the
text of the type is then made up of these, and declares it again.  Every other text is an unknown
type.  A type is declared by its text exactly if it can be declared at all, and no other type is. -/
theorem declarations_exact :
    (∀ (first second : Kind.Walk) (s : Text), parseAlong first second s = parse s) ∧
    (∀ s : Text, ∃ fs, (∀ gs, Text.Divided s.glyphs gs ↔ gs = fs) ∧
      ((∃ d, parse s = .ok d) ↔ Declares fs) ∧
      (∀ d, parse s = .ok d → d.text = Text.join " " fs ∧ parse d.text = .ok d) ∧
      ∀ e, parse s = .error e → e = .unknownType s) ∧
    ∀ t : DeclaredType,
      ((∃ d, parse t.text = .ok d) ↔
        t.elem.isScalar = true ∧ (t.container = .unknown ∨ t.container.isContainer = true)) ∧
      ∀ d, parse t.text = .ok d → d = t := by
  refine ⟨parseAlong_eq_parse, fun s => ⟨s.fields, fun gs => ?_, ?_, fun d hd => ?_, fun e he => ?_⟩,
    fun t => ⟨?_, fun d hd => (parse_text.mp hd).2⟩⟩
  · rw [← Text.fields_eq_iff, eq_comm]
  · rw [declares_iff]
    exact exists_congr fun d => parseAlong_eq_ok
  · obtain ⟨hdeclarable, hwords⟩ := parseAlong_eq_ok.mp hd
    exact ⟨by rw [text_eq_join, hwords], parse_text.mpr ⟨hdeclarable, rfl⟩⟩
  · exact eq_unknownType_of_parseAlong he
  · simp only [parse_text, exists_and_left, exists_eq, and_true]
    exact Iff.rfl

/-- A tab, and a wide space between the letter and the word. -/
theorem declarations_exact_queue :
    let s := Text.ofString "\tq\u2003num"
    let d : DeclaredType := ⟨.queue, .num⟩
    parse s = .ok d ∧ (∃ fs, Text.Divided s.glyphs fs ∧ d.text = Text.join " " fs) ∧
      parse d.text = .ok d := by
  intro s d
  have hs : parse s = .ok d := parseAlong_eq_ok.mpr ⟨⟨rfl, .inr rfl⟩, by decide +kernel⟩
  obtain ⟨fs, hfs, -, hd, -⟩ := declarations_exact.2.1 s
  exact ⟨hs, ⟨fs, (hfs fs).mpr rfl, (hd d hs).1⟩, (hd d hs).2⟩

end DeclaredType

end Colloquy
