import Colloquy.Proofs.Indexing
import Colloquy.Proofs.Literal

/-!
# Marks reshape arrays

A literal with a mark is read by its body, and the body denotes the same whatever mark stands before
it.  So `q:` and `s:` can do no more than put the items of an array into another shape
(`Reshaped`): where the body is an array, its items become a queue or a stack; where it is a bare
word, the literal is one too, with its mark; and there is no third way.

* `exists_parseWith_iff`: the marked literals that have a value, which are the same for both marks.
* `Marked.exists_vector_iff`: the unmarked literals whose value is a vector.
-/

namespace Colloquy

namespace Literal

variable {decode : Text → Option Json} {t body : Text} {shape : Shape} {js : List Json} {v : Value}

/-! ### Marked literals -/

theorem Marked.split_eq (h : Marked t shape body) : split t = (shape, body) := by
  cases h with
  | queue => rfl
  | stack => rfl
  | array hq hs =>
    unfold split
    split
    · exact absurd ⟨_, rfl⟩ hq
    · exact absurd ⟨_, rfl⟩ hs
    · rfl

theorem Marked.parseWith_eq_ok (h : Marked t shape body) :
    parseWith decode t = .ok v ↔ Denotes t shape body (decode body) v := by
  rw [Literal.parseWith_eq_ok, h.split_eq]

/-- **The marked literals with a value**: bare words, and arrays of scalars of one base type. -/
theorem exists_parseWith_iff (decode : Text → Option Json) (h : Marked t shape body)
    (hs : shape ≠ .array) :
    (∃ v, parseWith decode t = .ok v) ↔
      (decode body = none ∧ ¬ Opens body) ∨
        ∃ js, decode body = some (.array js) ∧ (js = [] ∨ Uniform js) := by
  simp only [h.parseWith_eq_ok]
  constructor
  · rintro ⟨v, hv⟩
    generalize decode body = j at hv
    cases hv with
    | bare hopens => exact .inl ⟨rfl, hopens⟩
    | number hs' | string hs' | bool hs' => exact absurd hs' hs
    | container hholds => exact .inr ⟨_, rfl, exists_holds_iff.mp ⟨v, hholds⟩⟩
  · rintro (⟨hj, hopens⟩ | ⟨js, hj, hjs⟩)
    · rw [hj]
      exact ⟨_, .bare hopens⟩
    · obtain ⟨v, hv⟩ := exists_holds_iff.mpr hjs
      rw [hj]
      exact ⟨v, .container hv⟩

/-! ### Arrays in other shapes -/

/-- **The same items in three shapes**: in an array, in a queue and in a stack, on which they were
pushed in their order. -/
inductive Reshaped : Value → Value → Value → Prop
  | items (b : Base) (xs : List b.Carrier) :
      Reshaped (.slice none (.scalar ⟨none, b⟩) (some xs)) (.queue ⟨none, b⟩ (some (.ofList xs)))
        (.stack ⟨none, b⟩ (some (.ofList xs)))

theorem Holds.reshaped (h : Holds .array js v) :
    ∃ q s, Holds .queue js q ∧ Holds .stack js s ∧ Reshaped v q s := by
  cases h with
  | @numbers xs _ hv =>
    cases hv
    exact ⟨_, _, .numbers .queue, .numbers .stack, .items .double xs⟩
  | @strings ts _ hne hv =>
    cases hv
    exact ⟨_, _, .strings hne .queue, .strings hne .stack, .items .text ts⟩
  | @bools bs _ hne hv =>
    cases hv
    exact ⟨_, _, .bools hne .queue, .bools hne .stack, .items .truth bs⟩

theorem Reshaped.length_eq {q s : Value} (h : Reshaped v q s) :
    ∃ n : ℕ, v.length = .ok n ∧ q.length = .ok n ∧ s.length = .ok n := by
  obtain ⟨b, xs⟩ := h
  exact ⟨xs.length, rfl, rfl, rfl⟩

/-- **A stack is shown from the top down**, so that the elements of the array are reversed. -/
theorem Reshaped.format_eq {q s : Value} (h : Reshaped v q s) :
    ∃ ts, List.Forall₂ Value.Shows v.elements ts ∧
      v.format = .ok (Value.enclose .plain ts) ∧ q.format = .ok (Value.enclose .plain ts) ∧
      s.format = .ok (Value.enclose .plain ts.reverse) := by
  obtain ⟨b, xs⟩ := h
  have hshows := Value.shows_map xs
  have hreverse : List.Forall₂ Value.Shows (xs.reverse.map (.scalar ⟨none, b⟩))
      (xs.map b.render).reverse := by
    rw [List.map_reverse]
    exact List.rel_reverse hshows
  exact ⟨xs.map b.render, hshows, Value.render_eq_ok.mpr (.container rfl hshows),
    Value.render_eq_ok.mpr (.container rfl hshows),
    Value.render_eq_ok.mpr (.container rfl hreverse)⟩

theorem Denotes.of_vector {j : Option Json} (h : Denotes t shape body j v)
    (hv : v.elementType? ≠ none) : ∃ js, j = some (.array js) ∧ Holds shape js v := by
  cases h with
  | bare | number | string | bool => exact absurd rfl hv
  | container h => exact ⟨_, rfl, h⟩

theorem Holds.elementType?_ne_none (h : Holds .array js v) : v.elementType? ≠ none := by
  obtain ⟨b, xs, hv⟩ := h.exists_filled
  cases hv
  exact Option.some_ne_none _

/-- **The unmarked literals whose value is a vector**: arrays of scalars of one base type. -/
theorem Marked.exists_vector_iff (decode : Text → Option Json) (h : Marked t .array body) :
    (∃ v, parseWith decode t = .ok v ∧ v.elementType? ≠ none) ↔
      ∃ js, decode body = some (.array js) ∧ (js = [] ∨ Uniform js) := by
  constructor
  · rintro ⟨v, hv, hvector⟩
    obtain ⟨js, hj, hholds⟩ := (h.parseWith_eq_ok.mp hv).of_vector hvector
    exact ⟨js, hj, exists_holds_iff.mp ⟨v, hholds⟩⟩
  · rintro ⟨js, hj, hjs⟩
    obtain ⟨v, hholds⟩ := exists_holds_iff.mpr hjs
    refine ⟨v, h.parseWith_eq_ok.mpr ?_, hholds.elementType?_ne_none⟩
    rw [hj]
    exact .container hholds

/-- **Marks reshape arrays and do nothing else**, whichever texts the decoder takes for JSON.  Let a
body without a mark be given.  If its value is a vector, then with the marks it is the queue and the
stack of the items, which have the same length; the stack is shown in reverse.  If it is no JSON,
and opens neither an array nor an object, then it is a string as it stands, without a mark and with
one.  In every other case it has no value with a mark.  And for every body at all, one mark leads to
a value exactly if the other does. -/
theorem marks_reshape_arrays (decode : Text → Option Json) (body : Text) :
    let plain := parseWith decode body
    let queued := parseWith decode ("q:" ++ body)
    let stacked := parseWith decode ("s:" ++ body)
    (¬ Text.ofString "q:" <+: body → ¬ Text.ofString "s:" <+: body →
      (∀ v, plain = .ok v → v.elementType? ≠ none →
        ∃ q s, queued = .ok q ∧ stacked = .ok s ∧ Reshaped v q s ∧
          (∃ n : ℕ, v.length = .ok n ∧ q.length = .ok n ∧ s.length = .ok n) ∧
          ∃ ts, List.Forall₂ Value.Shows v.elements ts ∧
            v.format = .ok (Value.enclose .plain ts) ∧ q.format = .ok (Value.enclose .plain ts) ∧
            s.format = .ok (Value.enclose .plain ts.reverse)) ∧
      (decode body = none → ¬ Opens body →
        plain = .ok (.str body) ∧ queued = .ok (.str ("q:" ++ body)) ∧
          stacked = .ok (.str ("s:" ++ body))) ∧
      ((∀ v, plain = .ok v → v.elementType? = none) → ¬ (decode body = none ∧ ¬ Opens body) →
        (∃ e, queued = .error e) ∧ ∃ e, stacked = .error e)) ∧
    ((∃ v, queued = .ok v) ↔ ∃ v, stacked = .ok v) := by
  intro plain queued stacked
  have hq := Marked.queue body
  have hs := Marked.stack body
  have hqueued := exists_parseWith_iff decode hq (by decide)
  have hstacked := exists_parseWith_iff decode hs (by decide)
  refine ⟨fun hnq hns => ?_, hqueued.trans hstacked.symm⟩
  have hp := Marked.array hnq hns
  refine ⟨fun v hv hvector => ?_, fun hj hopens => ?_, fun hplain hbare => ?_⟩
  · obtain ⟨js, hj, hholds⟩ := (hp.parseWith_eq_ok.mp hv).of_vector hvector
    obtain ⟨q, s, hholdsq, hholdss, hreshaped⟩ := hholds.reshaped
    refine ⟨q, s, hq.parseWith_eq_ok.mpr ?_, hs.parseWith_eq_ok.mpr ?_, hreshaped,
      hreshaped.length_eq, hreshaped.format_eq⟩
    · rw [hj]
      exact .container hholdsq
    · rw [hj]
      exact .container hholdss
  · refine ⟨hp.parseWith_eq_ok.mpr ?_, hq.parseWith_eq_ok.mpr ?_, hs.parseWith_eq_ok.mpr ?_⟩ <;>
    · rw [hj]
      exact .bare hopens
  · -- an array that can be reshaped would be a vector without a mark
    have hnone : ¬ ((decode body = none ∧ ¬ Opens body) ∨
        ∃ js, decode body = some (.array js) ∧ (js = [] ∨ Uniform js)) := by
      rw [← hp.exists_vector_iff decode]
      rintro (hb | ⟨v, hv, hvector⟩)
      · exact hbare hb
      · exact hvector (hplain v hv)
    have herror {r : Except Error Value} (h : ¬ ∃ v, r = .ok v) : ∃ e, r = .error e := by
      cases r with
      | ok v => exact absurd ⟨v, rfl⟩ h
      | error e => exact ⟨e, rfl⟩
    exact ⟨herror (mt hqueued.mp hnone), herror (mt hstacked.mp hnone)⟩

/-- Two booleans, which a stack shows the other way round. -/
theorem marks_reshape_arrays_truths :
    let body := Text.ofString "[true, false]"
    let v := Value.slice none (.scalar ⟨none, .truth⟩) (some [true, false])
    ¬ Text.ofString "q:" <+: body ∧ ¬ Text.ofString "s:" <+: body ∧
      parseWith Json.read? body = .ok v ∧ v.elementType? ≠ none ∧
      ∃ s, parseWith Json.read? ("s:" ++ body) = .ok s ∧ s.format = .ok "[false, true]" := by
  intro body v
  have hq : ¬ Text.ofString "q:" <+: body := by decide
  have hs : ¬ Text.ofString "s:" <+: body := by decide
  have hv : parseWith Json.read? body = .ok v := by rfl
  have hvector : v.elementType? ≠ none := Option.some_ne_none _
  obtain ⟨q, s, -, hstacked, hreshaped, -⟩ :=
    ((marks_reshape_arrays Json.read? body).1 hq hs).1 v hv hvector
  refine ⟨hq, hs, hv, hvector, s, hstacked, ?_⟩
  change Reshaped (.slice none (.scalar ⟨none, .truth⟩) (some [true, false])) q s at hreshaped
  cases hreshaped
  rfl

end Literal

end Colloquy
