import Colloquy.Proofs.Reshaping
import Mathlib.Order.Bounds.Defs

/-!
# Items of one kind

The items of an array become scalars of the base type that the first of them settles.  The first
item that is of another kind (`Alike`) ends this with an error that tells its index, its kind and the
kind of the first item.

* `collect_append`: items of the base type are collected whatever follows them.
* `build_cases`: what becomes of an array, by its first item and the first that is not like it.
* `fill?_append`: the items can be collected place by place, in a list that has a place for each of
  them from the start.  The kind in the error can then be looked up at the first place: there always
  is one.
-/

namespace Colloquy

theorem Json.kind_toValue (j : Json) : j.toValue.kind = j.kind := by
  cases j <;> simp [Json.toValue, Json.kind, Value.kind, Base.kind]

/-- The zero of a base type, which stands where nothing was stored yet. -/
def Base.zero : (b : Base) → b.Carrier
  | .double => .ofInt 0
  | .single => .ofInt 0
  | .text => []
  | .truth => false

namespace Literal

variable {b : Base} {shape : Shape} {js : List Json} {first j : Json} {v : Value}

/-! ### Kinds of items -/

/-- **Scalars of one kind**: two numbers, two strings or two booleans. -/
inductive Alike : Json → Json → Prop
  | numbers (x y : Double) : Alike (.number x) (.number y)
  | strings (t u : Text) : Alike (.string t) (.string u)
  | bools (a b : Bool) : Alike (.bool a) (.bool b)

/-- An item that is no scalar: null, an array or an object. -/
inductive NoScalar : Json → Prop
  | null : NoScalar .null
  | array (items : List Json) : NoScalar (.array items)
  | object (members : List (Text × Json)) : NoScalar (.object members)

theorem cast?_ne_none {item : b.Carrier → Json} (hcast : ∀ j x, cast? b j = some x ↔ item x = j)
    (j : Json) : cast? b j ≠ none ↔ ∃ x, item x = j := by
  simp only [Option.ne_none_iff_exists', hcast]

/-- The first item is no scalar, or it settles a base type, which takes the items like it. -/
theorem baseOf?_cases (first : Json) (js : List Json) :
    (NoScalar first ∧ baseOf? (first :: js) = none) ∨
    (¬ NoScalar first ∧ ∃ b, baseOf? (first :: js) = some b ∧ b.kind = first.kind ∧
      ∀ j, cast? b j ≠ none ↔ Alike first j) := by
  cases first with
  | null => exact .inl ⟨.null, rfl⟩
  | array items => exact .inl ⟨.array items, rfl⟩
  | object members => exact .inl ⟨.object members, rfl⟩
  | number x =>
    refine .inr ⟨nofun, .double, rfl, rfl, fun j => ?_⟩
    rw [cast?_ne_none fun _ _ => cast?_double]
    exact ⟨by rintro ⟨y, rfl⟩; exact .numbers x y, by rintro ⟨⟩; exact ⟨_, rfl⟩⟩
  | string t =>
    refine .inr ⟨nofun, .text, rfl, rfl, fun j => ?_⟩
    rw [cast?_ne_none fun _ _ => cast?_text]
    exact ⟨by rintro ⟨u, rfl⟩; exact .strings t u, by rintro ⟨⟩; exact ⟨_, rfl⟩⟩
  | bool a =>
    refine .inr ⟨nofun, .truth, rfl, rfl, fun j => ?_⟩
    rw [cast?_ne_none fun _ _ => cast?_truth]
    exact ⟨by rintro ⟨c, rfl⟩; exact .bools a c, by rintro ⟨⟩; exact ⟨_, rfl⟩⟩

/-! ### The first item that does not fit -/

theorem collect_append {before : List Json} (h : ∀ c ∈ before, cast? b c ≠ none) (i : ℕ)
    (rest : List Json) : ∃ xs, collect b i (before ++ rest) =
      (collect b (i + before.length) rest).map (xs ++ ·) := by
  induction before generalizing i with
  | nil =>
    refine ⟨[], ?_⟩
    cases hrest : collect b i rest <;> simp [hrest, Except.map]
  | cons c before ih =>
    obtain ⟨hc, hbefore⟩ := List.forall_mem_cons.mp h
    obtain ⟨x, hx⟩ := Option.ne_none_iff_exists'.mp hc
    obtain ⟨xs, hxs⟩ := ih hbefore (i + 1)
    refine ⟨x :: xs, ?_⟩
    rw [List.cons_append, collect, hx, hxs, List.length_cons, Nat.add_right_comm i, Nat.add_assoc]
    cases collect b (i + (before.length + 1)) rest <;> rfl

/-- Items are collected up to the first that is no scalar of the base type, if there is one. -/
theorem collect_cases (b : Base) (js : List Json) :
    ((∀ j ∈ js, cast? b j ≠ none) ∧ ∃ xs, collect b 0 js = .ok xs) ∨
    ∃ before j after, js = before ++ j :: after ∧ (∀ c ∈ before, cast? b c ≠ none) ∧
      cast? b j = none ∧
      collect b 0 js = .error (.mixedElements before.length j.kind b.kind) := by
  cases hf : js.find? fun j => (cast? b j).isNone with
  | none =>
    have hall : ∀ j ∈ js, cast? b j ≠ none := by simpa using hf
    obtain ⟨xs, hxs⟩ := collect_append hall 0 []
    exact .inl ⟨hall, xs ++ [], by simpa [collect, Except.map] using hxs⟩
  | some j =>
    obtain ⟨hj, before, after, rfl, hbefore⟩ := List.find?_eq_some_iff_append.mp hf
    have hall : ∀ c ∈ before, cast? b c ≠ none := by
      simpa [Option.isSome_iff_ne_none] using hbefore
    obtain ⟨xs, hxs⟩ := collect_append hall 0 (j :: after)
    refine .inr ⟨before, j, after, rfl, hall, Option.isNone_iff_eq_none.mp hj, ?_⟩
    rw [hxs, Nat.zero_add, collect, Option.isNone_iff_eq_none.mp hj, Except.map]

theorem isLeast_length {p : Json → Prop} {before after : List Json} (h : ∀ c ∈ before, ¬ p c)
    (hj : p j) : IsLeast { k | ∃ c, (before ++ j :: after)[k]? = some c ∧ p c } before.length := by
  refine ⟨⟨j, by simp, hj⟩, ?_⟩
  rintro k ⟨c, hk, hc⟩
  by_contra hlt
  rw [List.getElem?_append_left (Nat.lt_of_not_le hlt)] at hk
  exact h c (List.mem_of_getElem? hk) hc

/-! ### Places -/

/-- **Collecting place by place.**  The item at `i` goes to the place `i` of `out`, and an error about
it tells the kind of what stands at the first place; undefined if there is no such place. -/
def fill? (b : Base) : List b.Carrier → ℕ → List Json → Option (Except Error (List b.Carrier))
  | out, _, [] => some (.ok out)
  | out, i, j :: js =>
    match cast? b j with
    | some x => if i < out.length then fill? b (out.set i x) (i + 1) js else none
    | none => do
      let x ← out[0]?
      some (.error (.mixedElements i j.toValue.kind (Value.scalar ⟨none, b⟩ x).kind))

/-- The invariant of the places: what was collected so far stands before zeros, one for each item
that is left. -/
theorem fill?_append (done : List b.Carrier) (js : List Json) :
    fill? b (done ++ .replicate js.length b.zero) done.length js =
      some ((collect b done.length js).map (done ++ ·)) := by
  induction js generalizing done with
  | nil => simp [fill?, collect, Except.map]
  | cons j js ih =>
    rw [fill?, collect, List.length_cons, List.replicate_succ]
    cases hj : cast? b j with
    | none =>
      obtain ⟨x, hx⟩ : ∃ x, (done ++ b.zero :: .replicate js.length b.zero)[0]? = some x := by
        cases done <;> exact ⟨_, rfl⟩
      simp only [hx, Json.kind_toValue]
      rfl
    | some x =>
      have hplace : done.length < (done ++ b.zero :: .replicate js.length b.zero).length := by simp
      have hset : (done ++ b.zero :: .replicate js.length b.zero).set done.length x =
          done ++ [x] ++ .replicate js.length b.zero := by simp
      have hnext := ih (done ++ [x])
      rw [List.length_append, List.length_singleton] at hnext
      simp only [if_pos hplace, hset, hnext]
      cases collect b (done.length + 1) js <;> simp [Except.map]

/-- No place is looked at that is not there. -/
theorem fill?_replicate (b : Base) (js : List Json) :
    fill? b (.replicate js.length b.zero) 0 js = some (collect b 0 js) := by
  have h := fill?_append (b := b) [] js
  rw [List.nil_append, List.length_nil] at h
  rw [h]
  cases collect b 0 js <;> rfl

/-! ### Containers -/

/-- The order in which a container of a shape shows what was put in: a stack shows it from the top
down. -/
def Shape.shown (shape : Shape) (vs : List Value) : List Value :=
  if shape = .stack then vs.reverse else vs

theorem Shape.elements_hold (shape : Shape) (b : Base) (xs : List b.Carrier) :
    ∃ k, (shape.hold b xs).container? = some k ∧ k.kind = shape.kind ∧
      k.elements = shape.shown (xs.map (.scalar ⟨none, b⟩)) := by
  cases shape with
  | array => exact ⟨_, rfl, rfl, rfl⟩
  | queue => exact ⟨_, rfl, rfl, rfl⟩
  | stack => exact ⟨_, rfl, rfl, List.map_reverse⟩

theorem map_toValue {item : b.Carrier → Json}
    (h : ∀ x, (item x).toValue = .scalar ⟨none, b⟩ x) (xs : List b.Carrier) :
    xs.map (.scalar ⟨none, b⟩) = (xs.map item).map Json.toValue := by
  rw [List.map_map]
  exact List.map_congr_left fun x _ => (h x).symm

theorem Holds.items_eq (h : Holds shape js v) : ∃ (b : Base) (xs : List b.Carrier),
    v = shape.hold b xs ∧ xs.map (.scalar ⟨none, b⟩) = js.map Json.toValue := by
  cases h with
  | @numbers xs _ hv =>
    exact ⟨.double, xs, (filled_iff.mp hv).symm, map_toValue (b := .double) (fun _ => rfl) xs⟩
  | @strings ts _ _ hv =>
    exact ⟨.text, ts, (filled_iff.mp hv).symm, map_toValue (b := .text) (fun _ => rfl) ts⟩
  | @bools bs _ _ hv =>
    exact ⟨.truth, bs, (filled_iff.mp hv).symm, map_toValue (b := .truth) (fun _ => rfl) bs⟩

/-- The first item is no scalar, all items are like it, or some item is the first that is not. -/
theorem build_cases (shape : Shape) (first : Json) (rest : List Json) :
    (NoScalar first ∧ build shape (first :: rest) = .error .badElements) ∨
    (¬ NoScalar first ∧ (∀ j ∈ first :: rest, Alike first j) ∧
      ∃ v, build shape (first :: rest) = .ok v) ∨
    (¬ NoScalar first ∧ ∃ before j after, first :: rest = before ++ j :: after ∧
      (∀ c ∈ before, Alike first c) ∧ ¬ Alike first j ∧
      build shape (first :: rest) =
        .error (.mixedElements before.length j.kind first.kind)) := by
  rcases baseOf?_cases first rest with ⟨hno, hb⟩ | ⟨hscalar, b, hb, hkind, halike⟩
  · exact .inl ⟨hno, by rw [build, hb]⟩
  · simp only [build, hb]
    rcases collect_cases b (first :: rest) with
      ⟨hall, xs, hxs⟩ | ⟨before, j, after, hjs, hbefore, hj, he⟩
    · exact .inr (.inl ⟨hscalar, fun j hj => (halike j).mp (hall j hj), _, by rw [hxs, Except.map]⟩)
    · refine .inr (.inr ⟨hscalar, before, j, after, hjs, fun c hc => (halike c).mp (hbefore c hc),
        fun h => (halike j).mpr h hj, ?_⟩)
      rw [he, Except.map, hkind]

theorem alike_self : Alike first first ↔ ¬ NoScalar first := by
  refine ⟨by rintro ⟨⟩ <;> exact nofun, fun h => ?_⟩
  cases first with
  | number x => exact .numbers x x
  | string t => exact .strings t t
  | bool a => exact .bools a a
  | null => exact absurd .null h
  | array items => exact absurd (.array items) h
  | object members => exact absurd (.object members) h

theorem exists_build_iff : (∃ v, build shape js = .ok v) ↔
    js = [] ∨ ∃ first, js[0]? = some first ∧ ∀ j ∈ js, Alike first j := by
  rcases js with _ | ⟨first, rest⟩
  · exact iff_of_true ⟨_, rfl⟩ (.inl rfl)
  rw [or_iff_right (List.cons_ne_nil first rest)]
  rcases build_cases shape first rest with
    ⟨hno, he⟩ | ⟨-, hall, hv⟩ | ⟨-, before, j, after, hjs, -, hj, he⟩
  · refine iff_of_false (by simp [he]) ?_
    rintro ⟨_, ⟨⟩, hall⟩
    exact alike_self.mp (hall first (.head rest)) hno
  · exact iff_of_true hv ⟨first, rfl, hall⟩
  · refine iff_of_false (by simp [he]) ?_
    rintro ⟨_, ⟨⟩, hall⟩
    exact hj (hall j (by simp [hjs]))

theorem build_of_noScalar (hfirst : js[0]? = some first) (hno : NoScalar first) :
    build shape js = .error .badElements := by
  obtain ⟨rest, rfl⟩ := List.head?_eq_some_iff.mp (List.head?_eq_getElem?.trans hfirst)
  rcases build_cases shape first rest with ⟨-, he⟩ | ⟨hscalar, -⟩ | ⟨hscalar, -⟩
  · exact he
  · exact absurd hno hscalar
  · exact absurd hno hscalar

theorem build_of_offender (shape : Shape) (hfirst : js[0]? = some first)
    (hscalar : ¬ NoScalar first) (h : ∃ j ∈ js, ¬ Alike first j) :
    ∃ i j, IsLeast { k | ∃ c, js[k]? = some c ∧ ¬ Alike first c } i ∧ 1 ≤ i ∧ js[i]? = some j ∧
      build shape js = .error (.mixedElements i j.kind first.kind) := by
  obtain ⟨rest, rfl⟩ := List.head?_eq_some_iff.mp (List.head?_eq_getElem?.trans hfirst)
  rcases build_cases shape first rest with
    ⟨hno, -⟩ | ⟨-, hall, -⟩ | ⟨-, before, j, after, hjs, hbefore, hj, he⟩
  · exact absurd hno hscalar
  · obtain ⟨j, hmem, hj⟩ := h
    exact absurd (hall j hmem) hj
  · have hpos : 1 ≤ before.length := by
      -- the first item is like itself, so it is no offender
      rcases before with _ | ⟨d, before⟩
      · obtain ⟨rfl, -⟩ := List.cons.inj hjs
        exact absurd (alike_self.mpr hscalar) hj
      · simp
    refine ⟨before.length, j, ?_, hpos, by simp [hjs], he⟩
    rw [hjs]
    exact isLeast_length (fun d hd => not_not.mpr (hbefore d hd)) hj

/-- **The first offender is reported.**  A container is made of the items of an array exactly if there
are none, or all are scalars of the kind of the first; it then holds them in their order.  If the
first is no scalar, the array is refused for that.  Otherwise the error tells the least index of an
item that is not of the kind of the first, and both kinds.  This is also the outcome of a literal
for the array.  And the items can be collected place by place, with no look at a place that is not
there. -/
theorem build_reports_first (shape : Shape) (js : List Json) :
    ((∃ v, build shape js = .ok v) ↔
      js = [] ∨ ∃ first, js[0]? = some first ∧ ∀ j ∈ js, Alike first j) ∧
    (∀ v, build shape js = .ok v → ∃ (b : Base) (xs : List b.Carrier) (k : Container),
      v = shape.hold b xs ∧ xs.map (.scalar ⟨none, b⟩) = js.map Json.toValue ∧
      v.container? = some k ∧ k.kind = shape.kind ∧
      k.elements = shape.shown (js.map Json.toValue)) ∧
    (∀ first, js[0]? = some first → NoScalar first →
      build shape js = .error .badElements ∧
      Error.message .badElements = "elements must be num, str or bool") ∧
    (∀ first, js[0]? = some first → ¬ NoScalar first → (∃ j ∈ js, ¬ Alike first j) →
      ∃ i j e, IsLeast { k | ∃ c, js[k]? = some c ∧ ¬ Alike first c } i ∧ 1 ≤ i ∧
        js[i]? = some j ∧ build shape js = .error e ∧
        e = .mixedElements i j.toValue.kind first.toValue.kind ∧
        e.message = "element " ++ Text.ofNat i ++ " is " ++ j.toValue.kind.name ++ ", want " ++
          first.toValue.kind.name) ∧
    (∀ decode t body, Marked t shape body → decode body = some (.array js) →
      parseWith decode t =
        (build shape js).mapError (.within ("invalid literal " ++ t.quoted))) ∧
    ∀ b, fill? b (.replicate js.length b.zero) 0 js = some (collect b 0 js) := by
  refine ⟨exists_build_iff, fun v hv => ?_,
    fun first hfirst hno => ⟨build_of_noScalar hfirst hno, rfl⟩,
    fun first hfirst hscalar hj => ?_, fun decode t body ht hbody => ?_,
    fun b => fill?_replicate b js⟩
  · obtain ⟨b, xs, rfl, hxs⟩ := (build_eq_ok.mp hv).items_eq
    obtain ⟨k, hk, hkind, helements⟩ := shape.elements_hold b xs
    exact ⟨b, xs, k, rfl, hxs, hk, hkind, hxs ▸ helements⟩
  · obtain ⟨i, j, hleast, hpos, hi, he⟩ := build_of_offender shape hfirst hscalar hj
    simp only [Json.kind_toValue]
    exact ⟨i, j, _, hleast, hpos, hi, he, rfl, rfl⟩
  · rw [parseWith, ht.split_eq]
    simp only [hbody]
    cases shape <;> rfl

-- null has no kind that a program could declare
example : build .queue [.bool true, .bool false, .null, .string "a"] =
    .error (.mixedElements 2 .unknown .bool) := rfl

end Literal

end Colloquy
