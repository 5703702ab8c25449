import Colloquy.Proofs.Rendering

/-!
# One classification of values

Values are classified in four places: by their kind (`Value.kind`), by whether they are shown as a
scalar (`Value.renderScalar?`), by what is seen of them as a container (`Value.container?`), and by
whether they have a length (`Value.length`).  Each goes through the forms of a value on its own.
`Classed v c` says that the first three put the value `v` into the class `c`.

* `existsUnique_classed`: a value that is no foreign container is in one class.
* `IsForeign.container?_eq`: a foreign container is taken at its word, but is never a scalar.
* `length_eq_ok`: strings and containers have a length, and nothing else has.
* `IsPlain.length_eq`: the length of a container is the number of its elements.
-/

namespace Colloquy

namespace Value

/-! ### Classes -/

/-- The classes of values. -/
inductive Class where
  | scalar
  | container
  | unknown
deriving DecidableEq, Repr

/-- **A value is in a class**, as its kind says and as it is shown and seen. -/
def Classed (v : Value) : Class → Prop
  | .scalar =>
    v.kind.isScalar = true ∧ (∃ t, v.renderScalar? = some t) ∧ v.container? = none
  | .container =>
    v.kind.isContainer = true ∧ v.renderScalar? = none ∧ ∃ k, v.container? = some k ∧ k.kind = v.kind
  | .unknown => v.kind = .unknown ∧ v.renderScalar? = none ∧ v.container? = none

/-- **A foreign container**, whatever it claims of itself. -/
def IsForeign (v : Value) : Prop := ∃ n k l items, v = foreign n k l items

theorem isScalar_kind (b : Base) : b.kind.isScalar = true := by
  cases b <;> rfl

theorem exists_classed {v : Value} (h : ¬ v.IsForeign) : ∃ c, v.Classed c := by
  cases v with
  | absent => exact ⟨.unknown, rfl, rfl, rfl⟩
  | atom t x =>
    cases t with
    | scalar t =>
      obtain ⟨_ | n, b⟩ := t
      · exact ⟨.scalar, isScalar_kind b, ⟨_, rfl⟩, rfl⟩
      · exact ⟨.unknown, rfl, rfl, rfl⟩
    | int => exact ⟨.unknown, rfl, rfl, rfl⟩
  | other n d => exact ⟨.unknown, rfl, rfl, rfl⟩
  | slice o t items =>
    cases t with
    | scalar t =>
      obtain ⟨_ | n, b⟩ := t
      · exact ⟨.container, rfl, rfl, _, rfl, rfl⟩
      · exact ⟨.unknown, rfl, rfl, rfl⟩
    | int => exact ⟨.unknown, rfl, rfl, rfl⟩
  | list o t items => exact ⟨.unknown, rfl, rfl, rfl⟩
  | array o t items => exact ⟨.container, rfl, rfl, _, rfl, rfl⟩
  | queue t q => exact ⟨.container, rfl, rfl, _, rfl, rfl⟩
  | stack t s => exact ⟨.container, rfl, rfl, _, rfl, rfl⟩
  | record fs => exact ⟨.unknown, rfl, rfl, rfl⟩
  | foreign n k l items => exact absurd ⟨n, k, l, items, rfl⟩ h
  | named n v => exact ⟨.unknown, rfl, rfl, rfl⟩

/-- The class can be told from how the value is shown and seen. -/
theorem Classed.eq {v : Value} {c : Class} (h : v.Classed c) :
    c = if v.renderScalar?.isSome then .scalar else if v.container?.isSome then .container
      else .unknown := by
  cases c with
  | scalar =>
    obtain ⟨-, ⟨t, ht⟩, -⟩ := h
    rw [ht]
    rfl
  | container =>
    obtain ⟨-, hshown, k, hk, -⟩ := h
    rw [hshown, hk]
    rfl
  | unknown =>
    obtain ⟨-, hshown, hseen⟩ := h
    rw [hshown, hseen]
    rfl

theorem existsUnique_classed {v : Value} (h : ¬ v.IsForeign) : ∃! c, v.Classed c := by
  obtain ⟨c, hc⟩ := exists_classed h
  exact ⟨c, hc, fun d hd => hd.eq.trans hc.eq.symm⟩

theorem IsForeign.container?_eq {v : Value} (h : v.IsForeign) :
    v.renderScalar? = none ∧ ∃ k, v.container? = some k ∧ k.value = v ∧ k.kind = v.kind := by
  obtain ⟨n, k, l, items, rfl⟩ := h
  exact ⟨rfl, _, rfl, rfl, rfl⟩

/-! ### Renderings and lengths -/

theorem exists_format_iff {v : Value} : (∃ t, v.format = .ok t) ↔ v.Renderable := by
  rw [renderable_iff .plain]
  exact exists_congr fun t => render_eq_ok

theorem length_eq_ok {v : Value} {n : Int} : v.length = .ok n ↔
    (∃ t, v = str t ∧ n = t.glyphs.length) ∨ ∃ k, v.container? = some k ∧ n = k.length := by
  unfold length
  split
  · next t =>
    constructor
    · intro h
      exact Or.inl ⟨t, rfl, (Except.ok.inj h).symm⟩
    · rintro (⟨u, hu, rfl⟩ | ⟨k, hk, -⟩)
      · cases hu
        rfl
      · cases hk
  · next hstr =>
    constructor
    · intro h
      split at h
      · next k hk => exact Or.inr ⟨k, hk, (Except.ok.inj h).symm⟩
      · cases h
    · rintro (⟨t, rfl, -⟩ | ⟨k, hk, rfl⟩)
      · exact absurd rfl (hstr t)
      · rw [hk]

/-- **The containers of the program's own**: slices of scalars of a base type, arrays, queues and
stacks, also missing ones. -/
inductive IsPlain : Value → Prop
  | slice (o : Option Text) (b : Base) (items : Option (List b.Carrier)) :
      IsPlain (slice o (.scalar ⟨none, b⟩) items)
  | array (o : Option Text) (t : ScalarType) (items : Option (List t.Carrier)) :
      IsPlain (array o t items)
  | queue (t : ScalarType) (q : Option (Queue t.Carrier)) : IsPlain (queue t q)
  | stack (t : ScalarType) (s : Option (Stack t.Carrier)) : IsPlain (stack t s)

theorem IsPlain.length_eq {v : Value} (h : v.IsPlain) :
    ∃ k, v.container? = some k ∧ k.length = k.elements.length := by
  have hlist {t : ScalarType} (v : Value) (k : Kind) (n : Nat) {xs : List t.Carrier}
      (hn : n = xs.length) :
      (containerOf t v k n xs).length = (containerOf t v k n xs).elements.length := by
    rw [containerOf, List.length_map, hn]
  cases h with
  | slice o b items => exact ⟨_, rfl, hlist _ _ _ rfl⟩
  | array o t items => exact ⟨_, rfl, hlist _ _ _ rfl⟩
  | queue t q => exact ⟨_, rfl, hlist _ _ _ (by cases q <;> rfl)⟩
  | stack t s =>
    -- a stack counts its items from the bottom and shows them from the top
    have hcount : (s.map Stack.length).getD 0 = ((s.map Stack.elements).getD []).length := by
      cases s with
      | none => rfl
      | some s => exact List.length_reverse.symm
    exact ⟨_, rfl, hlist _ _ _ hcount⟩

/-- **The classifiers agree.**  A value that is no foreign container is in exactly one class: it is
a scalar, a container of the kind that is its own, or neither, for its kind, for how it is shown and
for what is seen of it alike.  A foreign container is seen as it is, under the kind that it claims,
and is never shown as a scalar.  So the values with a rendering are the scalars of a base type and
the containers of such scalars, and the values with a length are the strings and the containers.
The length of a slice, an array, a queue or a stack is the number of its elements, and of the texts
that are joined in its rendering. -/
theorem classifiers_agree (v : Value) :
    (¬ v.IsForeign → ∃! c, v.Classed c) ∧
    (v.IsForeign → v.renderScalar? = none ∧
      ∃ k, v.container? = some k ∧ k.value = v ∧ k.kind = v.kind) ∧
    ((∃ t, v.format = .ok t) ↔
      v.IsBase ∨ ∃ k, v.container? = some k ∧ ∀ e ∈ k.elements, IsBase e) ∧
    ((∃ n, v.length = .ok n) ↔ (∃ t, v = str t) ∨ ∃ k, v.container? = some k) ∧
    (v.IsPlain → ∃ k, v.container? = some k ∧ v.length = .ok k.elements.length ∧
      ∀ t, v.format = .ok t → ∃ ts, List.Forall₂ Shows k.elements ts ∧
        ts.length = k.elements.length ∧ t = "[" ++ Text.join separator ts ++ "]") := by
  refine ⟨existsUnique_classed, IsForeign.container?_eq, exists_format_iff, ?_, fun hplain => ?_⟩
  · simp only [length_eq_ok]
    constructor
    · rintro ⟨n, ⟨t, ht, -⟩ | ⟨k, hk, -⟩⟩
      · exact Or.inl ⟨t, ht⟩
      · exact Or.inr ⟨k, hk⟩
    · rintro (⟨t, ht⟩ | ⟨k, hk⟩)
      · exact ⟨_, Or.inl ⟨t, ht, rfl⟩⟩
      · exact ⟨_, Or.inr ⟨k, hk, rfl⟩⟩
  · obtain ⟨k, hk, hlen⟩ := hplain.length_eq
    refine ⟨k, hk, length_eq_ok.mpr (Or.inr ⟨k, hk, hlen.symm⟩), fun t ht => ?_⟩
    cases render_eq_ok.mp ht with
    | scalar h =>
      rw [container?_eq_none_of_isBase (isBase_iff.mpr ⟨t, h⟩)] at hk
      cases hk
    | container hk' hts =>
      obtain rfl := Option.some.inj (hk.symm.trans hk')
      exact ⟨_, hts, hts.length_eq.symm, rfl⟩

/-- A stack of numbers of a named type that is missing, and a foreign container that claims to be a
number. -/
theorem classifiers_agree_claims :
    let s := Value.stack ⟨some "Num", .double⟩ none
    let f := Value.foreign "Fake" .num 7 [.str "a"]
    ¬ s.IsForeign ∧ s.IsPlain ∧ (∃! c, s.Classed c) ∧ s.length = .ok 0 ∧
      f.IsForeign ∧ f.renderScalar? = none ∧ f.kind.isScalar = true ∧ f.length = .ok 7 := by
  intro s f
  have hs : ¬ s.IsForeign := by
    rintro ⟨n, k, l, items, h⟩
    exact Value.noConfusion h
  have hplain : s.IsPlain := .stack _ none
  have hf : f.IsForeign := ⟨_, _, _, _, rfl⟩
  obtain ⟨hclass, -, -, -, hlength⟩ := classifiers_agree s
  obtain ⟨k, hk, hlen, -⟩ := hlength hplain
  obtain rfl := Option.some.inj hk
  exact ⟨hs, hplain, hclass hs, hlen, hf, ((classifiers_agree f).2.1 hf).1, rfl, rfl⟩

end Value

end Colloquy
