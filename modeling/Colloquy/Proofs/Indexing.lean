import Colloquy.Indexing
import Colloquy.Proofs.Number.Whole
import Colloquy.Proofs.Outcome

/-!
# Reading and replacing elements

A position falls on an index of a vector if it is rounded to that index, which is less than the
length (`Indexing.FallsOn`).

What a vector is to the operations that index it: a type of elements (`Value.elementType?`) and a
list of them (`Value.elements`).  `Stores t v x` says that a vector of type `t` takes the value `v`
and keeps it as `x`, and `Replaced vec i x after` that the vectors `vec` and `after` differ in the
element at `i` alone, which is `x` in the latter.

* `resolve_eq_ok`, `resolve_cases`: the positions that are resolved are those that fall on an index.
* `sees_vector?`: what is seen of a value as a vector is what it is.
* `index_eq_get`: reading from a vector is reading from the list of its elements.
* `setIndex_of_fallsOn` and the three lemmas after it: what `Value.setIndex` does in each case.
-/

namespace Colloquy

/-! ### Positions -/

namespace Indexing

/-- **A position falls on the index** `i` of a vector of length `n`: it is rounded to `i`, which is
less than the length.  The length is taken as the nearest double, so that beyond `2 ^ 53` the last
element may be out of reach. -/
structure FallsOn (p : Double) (n i : ℕ) : Prop where
  nearest : p.NearestInteger i
  lt_roundNat : i < Format.double.roundNat n

instance (p : Double) (n i : ℕ) : Decidable (FallsOn p n i) :=
  decidable_of_iff (p.NearestInteger i ∧ i < Format.double.roundNat n)
    ⟨fun h => ⟨h.1, h.2⟩, fun h => ⟨h.1, h.2⟩⟩

variable {op : Text} {p q : Double} {n i : ℕ}

theorem resolve_eq_ok : resolve op p n = .ok i ↔ FallsOn p n i := by
  have hiff : resolve op p n = .ok i ↔ p.round? = some (i : ℤ) ∧ i < Format.double.roundNat n := by
    unfold resolve
    cases hr : p.round? with
    | none => simp
    | some r =>
      simp only [Option.some.injEq]
      split_ifs with h
      · refine ⟨fun h' => (by cases h'), ?_⟩
        rintro ⟨rfl, hlt⟩
        omega
      · rw [Except.ok.injEq]
        omega
  rw [hiff, Binary.round?_eq_some]
  exact ⟨fun h => ⟨h.1, h.2⟩, fun h => ⟨h.1, h.2⟩⟩

theorem resolve_eq_error {e : Error} (h : resolve op p n = .error e) :
    (p.round? = none ∧ e = .outOfBounds op p 0 n) ∨
      ∃ r, p.round? = some r ∧ e = .outOfBounds op p (reported r) n := by
  unfold resolve at h
  cases hr : p.round? with
  | none =>
    simp only [hr] at h
    exact .inl ⟨rfl, (Except.error.inj h).symm⟩
  | some r =>
    simp only [hr] at h
    split_ifs at h
    exact .inr ⟨r, rfl, (Except.error.inj h).symm⟩

theorem resolve_cases (op : Text) (p : Double) (n : ℕ) :
    (∃ i, FallsOn p n i ∧ resolve op p n = .ok i) ∨
      (∀ i, ¬ FallsOn p n i) ∧ ∃ k, resolve op p n = .error (.outOfBounds op p k n) := by
  cases h : resolve op p n with
  | ok i => exact .inl ⟨i, resolve_eq_ok.mp h, rfl⟩
  | error e =>
    obtain ⟨k, rfl⟩ : ∃ k, e = .outOfBounds op p k n := by
      rcases resolve_eq_error h with ⟨-, rfl⟩ | ⟨r, -, rfl⟩ <;> exact ⟨_, rfl⟩
    refine .inr ⟨fun i hi => ?_, k, rfl⟩
    rw [resolve_eq_ok.mpr hi] at h
    cases h

/-- **No index beyond the end is fallen on**, although lengths are compared after rounding. -/
theorem FallsOn.lt (h : FallsOn p n i) : i < n := by
  have hr := Binary.round?_eq_some.mpr h.nearest
  rcases p with _ | _ | ⟨s, c⟩
  · cases hr
  · cases hr
  · have hi : i = Rounding.halfUp (Format.double.units c) (2 ^ Format.double.finest) := by
      simp only [Binary.round?, Option.some.injEq, Power.two_eq] at hr
      split_ifs at hr <;> omega
    by_contra hge
    have hle := Format.roundNat_le_halfUp (by decide) ((not_lt.mp hge).trans_eq hi)
    have hlt := h.lt_roundNat
    omega

theorem FallsOn.unique {j : ℕ} (hi : FallsOn p n i) (hj : FallsOn p n j) : i = j := by
  exact_mod_cast hi.nearest.unique hj.nearest

/-- Up to `2 ^ 53` every length is a double, and every element is within reach. -/
theorem fallsOn_iff_of_le (hn : n ≤ 2 ^ 53) : FallsOn p n i ↔ p.NearestInteger i ∧ i < n := by
  have hround : Format.double.roundNat n = n := Format.roundNat_of_le (f := .double) (by decide) hn
  constructor
  · exact fun h => ⟨h.nearest, hround ▸ h.lt_roundNat⟩
  · exact fun h => ⟨h.1, hround.symm ▸ h.2⟩

-- the first length that is no double: its last element is never fallen on
example (p : Double) : ¬ FallsOn p (2 ^ 53 + 1) (2 ^ 53) :=
  fun h => absurd h.lt_roundNat (by decide +kernel)

/-! ### Lists -/

variable {α β : Type} {xs : List α} {x : α}

theorem element_eq_ok : element op p xs i = .ok x ↔ xs[i]? = some x := by
  unfold element
  cases xs[i]? <;> simp

theorem FallsOn.exists_element (h : FallsOn p xs.length i) : ∃ x, xs[i]? = some x :=
  ⟨_, List.getElem?_eq_getElem h.lt⟩

theorem get_eq_ok : get xs p = .ok x ↔ ∃ i, FallsOn p xs.length i ∧ xs[i]? = some x := by
  simp only [get, Outcome.bind_eq_ok, element_eq_ok, resolve_eq_ok]

theorem get_eq_error {e : Error} : get xs p = .error e ↔ resolve "get" p xs.length = .error e := by
  rw [get, Outcome.bind_eq_error]
  refine ⟨fun h => h.resolve_right ?_, Or.inl⟩
  rintro ⟨i, hi, he⟩
  obtain ⟨x, hx⟩ := (resolve_eq_ok.mp hi).exists_element
  rw [element_eq_ok.mpr hx] at he; cases he

theorem get_map (f : α → β) : get (xs.map f) p = (get xs p).map f := by
  cases h : get xs p with
  | ok x =>
    obtain ⟨i, hi, hx⟩ := get_eq_ok.mp h
    exact get_eq_ok.mpr ⟨i, by rwa [List.length_map], by simp [hx]⟩
  | error e => exact get_eq_error.mpr (by rw [List.length_map]; exact get_eq_error.mp h)

theorem set_of_fallsOn {old : α} (hi : FallsOn p xs.length i) (hold : xs[i]? = some old) :
    set xs p x = .ok (old, xs.set i x) := by
  rw [set, Outcome.bind_eq_ok]
  exact ⟨i, resolve_eq_ok.mpr hi, Outcome.bind_eq_ok.mpr ⟨old, element_eq_ok.mpr hold, rfl⟩⟩

theorem set_of_unresolved {e : Error} (he : resolve "set" p xs.length = .error e) :
    set xs p x = .error e := by
  rw [set, Outcome.bind_eq_error]
  exact Or.inl he

end Indexing

/-! ### Names of types -/

namespace Value

variable (v : Value) (n : Text)

theorem bare_bare : v.bare.bare = v.bare := by
  fun_induction bare v with
  | case1 m v ih => exact ih
  | case2 => rfl
  | case3 v hnamed harray =>
    unfold bare
    split
    · exact absurd rfl (hnamed _ _)
    · exact absurd rfl (harray _ _ _)
    · rfl

theorem bare_under : (v.under n).bare = v.bare := by
  have hbare := v.bare_bare
  unfold under
  split
  · next h => rw [h]; rfl
  · next o t items h =>
    rw [h]
    split_ifs <;> rfl
  · split_ifs
    · exact hbare
    · exact hbare

theorem typeName_under : (v.under n).typeName = n := by
  unfold under
  split
  · rfl
  · split_ifs with harray hslice
    · exact harray
    · exact hslice
    · rfl
  · split_ifs with h
    · exact h
    · rfl

theorem under_ne_absent : v.under n ≠ absent := by
  unfold under
  split
  · exact Value.noConfusion
  · split_ifs <;> exact Value.noConfusion
  · next w habsent _ =>
    split_ifs
    · exact habsent
    · exact Value.noConfusion

end Value

/-! ### Elements -/

/-- **The values of an item type**: for an interface those of the types that implement it, or
nothing, and otherwise those of the type itself. -/
def ItemType.Has : ItemType → Value → Prop
  | interface _ implementedBy, v => v = .absent ∨ implementedBy v.typeName = true
  | concrete n _, v => v.typeName = n

/-- **The values that elements of a type are.** -/
def ElementType.Has : ElementType → Value → Prop
  | atom t, v => ∃ x, v = .atom t x
  | item t, v => t.Has v

namespace Value

/-- The type of the elements of a value, if it is a vector. -/
def elementType? : Value → Option ElementType
  | slice _ t _ => some (.atom t)
  | array _ t _ => some (.atom (.scalar t))
  | list _ t _ => some (.item t)
  | named _ v => v.elementType?
  | _ => none

/-- The elements of a vector. -/
def elements : Value → List Value
  | slice _ t xs => (xs.getD []).map (atom t)
  | array _ t xs => (xs.getD []).map (scalar t)
  | list _ _ vs => vs.getD []
  | named _ v => v.elements
  | _ => []

/-- **What a vector keeps of a value**: a value of its own type as it is, a number of another width
or name after conversion, and among items a value of another type that is assigned to them, which
they have under their own type if that is not an interface. -/
inductive Stores : ElementType → Value → Value → Prop
  | same (t : AtomType) (x : t.Carrier) : Stores (.atom t) (atom t x) (atom t x)
  | narrowed (m n : Option Text) (x : Double) : Stores (.atom (.scalar ⟨m, .single⟩))
      (scalar ⟨n, .double⟩ x) (scalar ⟨m, .single⟩ (Binary.convert x))
  | widened (m n : Option Text) (x : Single) : Stores (.atom (.scalar ⟨m, .double⟩))
      (scalar ⟨n, .single⟩ x) (scalar ⟨m, .double⟩ (Binary.convert x))
  | renamed (m n : Option Text) {b : Base} (hb : b = .double ∨ b = .single) (x : b.Carrier) :
      Stores (.atom (.scalar ⟨m, b⟩)) (scalar ⟨n, b⟩ x) (scalar ⟨m, b⟩ x)
  | implementing {n : Text} {implementedBy : Text → Bool} {v : Value} (hv : v ≠ absent)
      (h : implementedBy v.typeName = true) : Stores (.item (.interface n implementedBy)) v v
  | own {n : Text} (takes : Text → Bool) {v : Value} (hv : v ≠ absent) (h : v.typeName = n) :
      Stores (.item (.concrete n takes)) v v
  | taken {n : Text} {takes : Text → Bool} {v : Value} (hv : v ≠ absent) (hn : v.typeName ≠ n)
      (h : takes v.typeName = true) : Stores (.item (.concrete n takes)) v (v.under n)

-- a value of a type that implements the interface, and a map of a named type among maps
example (d : Datum) : Stores (.item (.interface "error" (· == "Failure"))) (other "Failure" d)
    (other "Failure" d) :=
  .implementing Value.noConfusion rfl

example (d : Datum) : Stores (.item (.concrete "map[string]int" (· == "Ages")))
    (named "Ages" (other "map[string]int" d)) (other "map[string]int" d) :=
  .taken Value.noConfusion (show Text.ofString "Ages" ≠ "map[string]int" by decide) rfl

/-- **A vector with one element replaced.** -/
inductive Replaced : Value → ℕ → Value → Value → Prop
  | slice (o : Option Text) (t : AtomType) (xs : List t.Carrier) (i : ℕ) (x : t.Carrier) :
      Replaced (slice o t (some xs)) i (atom t x) (slice o t (some (xs.set i x)))
  | array (o : Option Text) (t : ScalarType) (xs : List t.Carrier) (i : ℕ) (x : t.Carrier) :
      Replaced (array o t (some xs)) i (scalar t x) (array o t (some (xs.set i x)))
  | list (o : Option Text) (t : ItemType) (vs : List Value) (i : ℕ) (v : Value) :
      Replaced (list o t (some vs)) i v (list o t (some (vs.set i v)))
  | named (n : Text) {vec after x : Value} {i : ℕ} (h : Replaced vec i x after) :
      Replaced (named n vec) i x (named n after)

section Stores
variable {t : ElementType} {v x : Value}

theorem Stores.ne_absent (h : Stores t v x) : v ≠ absent ∧ x ≠ absent := by
  cases h with
  | same | narrowed | widened | renamed => exact ⟨Value.noConfusion, Value.noConfusion⟩
  | implementing hv | own _ hv => exact ⟨hv, hv⟩
  | taken hv => exact ⟨hv, under_ne_absent _ _⟩

theorem Stores.has (h : Stores t v x) : t.Has x := by
  cases h with
  | same | narrowed | widened | renamed => exact ⟨_, rfl⟩
  | implementing _ h => exact .inr h
  | own _ _ h => exact h
  | taken => exact typeName_under _ _

/-- Among items, what is kept of a value is that value. -/
theorem Stores.bare_eq {t : ItemType} (h : Stores (.item t) v x) : x.bare = v.bare := by
  cases h with
  | implementing | own => rfl
  | taken => exact bare_under _ _

theorem stores_of_has (h : t.Has x) (hx : x ≠ absent) : Stores t x x := by
  cases t with
  | atom t =>
    obtain ⟨y, rfl⟩ := h
    exact .same t y
  | item t =>
    cases t with
    | interface n implementedBy => exact .implementing hx (h.resolve_left hx)
    | concrete n takes => exact .own takes hx h

end Stores

/-! ### Assignments -/

theorem assign_atom {t u : AtomType} {x : u.Carrier} {y : t.Carrier} :
    ((ElementType.atom t).assign? (atom u x)).or ((ElementType.atom t).convert? (atom u x)) =
      some y ↔ Stores (.atom t) (atom u x) (atom t y) := by
  simp only [ElementType.assign?, ElementType.convert?]
  constructor
  · intro h
    split_ifs at h with hut
    · subst hut
      cases h; exact .same _ _
    · rw [Option.none_or] at h
      unfold AtomType.convert? at h
      split at h
      · cases h; exact .renamed _ _ (Or.inl rfl) _
      · cases h; exact .widened _ _ _
      · cases h; exact .narrowed _ _ _
      · cases h; exact .renamed _ _ (Or.inr rfl) _
      · cases h
  · intro h
    cases h with
    | same => rw [dif_pos rfl]; rfl
    | narrowed m n x => rw [dif_neg (by simp)]; rfl
    | widened m n x => rw [dif_neg (by simp)]; rfl
    | renamed m n hb x =>
      split_ifs with hut
      · cases hut; rfl
      · rcases hb with rfl | rfl <;> rfl

theorem keep?_eq_some {t : ItemType} {v x : Value} (hv : v ≠ absent) :
    t.keep? v = some x ↔ Stores (.item t) v x := by
  cases t with
  | interface n implementedBy =>
    simp only [ItemType.keep?]
    constructor
    · intro h
      split_ifs at h with himpl
      cases h; exact .implementing hv himpl
    · rintro ⟨⟩
      exact if_pos ‹_›
  | concrete n takes =>
    simp only [ItemType.keep?]
    constructor
    · intro h
      split_ifs at h with hn htakes
      · cases h; exact .own takes hv hn
      · cases h; exact .taken hv hn htakes
    · intro h
      cases h with
      | own _ _ hn => exact if_pos hn
      | taken _ hn htakes => rw [if_neg hn, if_pos htakes]

theorem assign_eq_some {t : ElementType} {v : Value} {y : t.Carrier} (hv : v ≠ absent) :
    (t.assign? v).or (t.convert? v) = some y ↔ Stores t v (t.value y) := by
  cases t with
  | item t =>
    have hitem : ((ElementType.item t).assign? v).or ((ElementType.item t).convert? v) =
        t.keep? v := Option.or_none
    rw [hitem]
    exact keep?_eq_some hv
  | atom t =>
    cases v with
    | atom u x => exact assign_atom
    | _ =>
      refine ⟨fun h => (by cases h), fun h => ?_⟩
      cases h

theorem storable_eq_ok {vec v : Value} {t : ElementType} {y : t.Carrier} :
    storable vec t v = .ok y ↔ Stores t v (t.value y) := by
  unfold storable
  split
  · exact ⟨fun h => (by cases h), fun h => absurd rfl h.ne_absent.1⟩
  · next hv =>
    rw [← assign_eq_some hv]
    split
    · next hy => rw [hy]; simp
    · next hn => rw [hn]; simp

theorem storable_eq_error {vec v : Value} {t : ElementType} {e : Error}
    (h : storable vec t v = .error e) : e.cause = .unsupported "index" v := by
  unfold storable at h
  split at h
  · cases h; rfl
  · split at h
    · cases h
    · cases h; rfl

/-! ### Vectors -/

section Replaced
variable {vec after x : Value} {i : ℕ} (h : Replaced vec i x after)
include h

theorem Replaced.elements_eq : after.elements = vec.elements.set i x := by
  induction h with
  | slice | array => simp [elements, List.map_set]
  | list => rfl
  | named n _ ih => exact ih

theorem Replaced.elementType?_eq : after.elementType? = vec.elementType? := by
  induction h with
  | slice | array | list => rfl
  | named n _ ih => exact ih

theorem Replaced.typeName_eq : after.typeName = vec.typeName := by
  cases h <;> rfl

theorem Replaced.unique {after' : Value} (h' : Replaced vec i x after') : after' = after := by
  induction h generalizing after' with
  | slice | array | list => cases h'; rfl
  | named n _ ih =>
    cases h' with
    | named _ h' => rw [ih h']

theorem Replaced.length_eq : after.elements.length = vec.elements.length := by
  rw [h.elements_eq, List.length_set]

theorem Replaced.getElem?_eq (hi : i < vec.elements.length) : after.elements[i]? = some x := by
  rw [h.elements_eq, List.getElem?_set_self hi]

theorem Replaced.again : Replaced after i x after := by
  induction h with
  | slice o t xs i y =>
    have := Replaced.slice o t (xs.set i y) i y
    rwa [List.set_set] at this
  | array o t xs i y =>
    have := Replaced.array o t (xs.set i y) i y
    rwa [List.set_set] at this
  | list o t vs i v =>
    have := Replaced.list o t (vs.set i v) i v
    rwa [List.set_set] at this
  | named n _ ih => exact .named n ih

/-- Putting back what was there gives the vector as it was. -/
theorem Replaced.symm {old : Value} (hold : vec.elements[i]? = some old) :
    Replaced after i old vec := by
  have hset {α : Type} {i : ℕ} {xs : List α} {y z : α} (hz : xs[i]? = some z) :
      (xs.set i y).set i z = xs := by
    obtain ⟨hi, rfl⟩ := List.getElem?_eq_some_iff.mp hz
    rw [List.set_set, List.set_getElem_self]
  induction h with
  | slice o t xs i y =>
    obtain ⟨z, hz, rfl⟩ : ∃ z, xs[i]? = some z ∧ atom t z = old := by
      simpa [elements] using hold
    have := Replaced.slice o t (xs.set i y) i z
    rwa [hset hz] at this
  | array o t xs i y =>
    obtain ⟨z, hz, rfl⟩ : ∃ z, xs[i]? = some z ∧ scalar t z = old := by
      simpa [elements] using hold
    have := Replaced.array o t (xs.set i y) i z
    rwa [hset hz] at this
  | list o t vs i v =>
    have := Replaced.list o t (vs.set i v) i old
    rwa [hset (show vs[i]? = some old from hold)] at this
  | named n _ ih => exact .named n (ih hold)

end Replaced

/-- **What is seen of a vector**: its elements, their type, and the vector with one replaced. -/
structure Sees (vec : Value) (s : Vector) : Prop where
  type : vec.elementType? = some s.type
  elements : vec.elements = s.items.map s.type.value
  rebuild : ∀ i x, i < s.items.length →
    Replaced vec i (s.type.value x) (s.rebuild (s.items.set i x))

theorem sees_vector? {vec : Value} {s : Vector} (h : vec.vector? = some s) : Sees vec s := by
  -- a vector that is missing has no index
  fun_induction vector? vec generalizing s with
  | case1 o t xs =>
    cases h
    refine ⟨rfl, rfl, fun i x hi => ?_⟩
    cases xs with
    | none => exact absurd hi (Nat.not_lt_zero i)
    | some xs => exact .slice o t xs i x
  | case2 o t xs =>
    cases h
    refine ⟨rfl, rfl, fun i x hi => ?_⟩
    cases xs with
    | none => exact absurd hi (Nat.not_lt_zero i)
    | some xs => exact .array o t xs i x
  | case3 o t vs =>
    cases h
    refine ⟨rfl, (List.map_id _).symm, fun i x hi => ?_⟩
    cases vs with
    | none => exact absurd hi (Nat.not_lt_zero i)
    | some vs => exact .list o t vs i x
  | case4 n v ih =>
    obtain ⟨s, hs, rfl⟩ := Option.map_eq_some_iff.mp h
    obtain ⟨htype, helements, hrebuild⟩ := ih hs
    exact ⟨htype, helements, fun i x hi => .named n (hrebuild i x hi)⟩
  | case5 => cases h

theorem vector?_eq_none {vec : Value} : vec.vector? = none ↔ vec.elementType? = none := by
  fun_induction vector? vec with
  | case1 | case2 | case3 => exact iff_of_false (Option.some_ne_none _) (Option.some_ne_none _)
  | case4 n v ih => exact Option.map_eq_none_iff.trans ih
  | case5 v hslice harray hlist hnamed =>
    refine iff_of_true rfl ?_
    cases v with
    | slice o t xs => exact absurd rfl (hslice o t xs)
    | array o t xs => exact absurd rfl (harray o t xs)
    | list o t vs => exact absurd rfl (hlist o t vs)
    | named n v => exact absurd rfl (hnamed n v)
    | _ => rfl

theorem exists_sees {vec : Value} {t : ElementType} (ht : vec.elementType? = some t) :
    ∃ s, vec.vector? = some s ∧ Sees vec s ∧ s.type = t := by
  cases h : vec.vector? with
  | none =>
    rw [vector?_eq_none.mp h] at ht
    cases ht
  | some s =>
    have hs := sees_vector? h
    exact ⟨s, rfl, hs, Option.some.inj (hs.type.symm.trans ht)⟩

variable {vec v x : Value} {t : ElementType} {p : Double}

theorem index_of_not_vector (h : vec.elementType? = none) (p : Double) :
    vec.index p = .error (.unsupported "index" vec) := by
  rw [index, vector?_eq_none.mpr h]

theorem setIndex_of_not_vector (ht : vec.elementType? = none) :
    vec.setIndex p v = .error (.unsupported "index" vec) := by
  rw [setIndex, vector?_eq_none.mpr ht]

/-- **A vector is read** as the list of its elements is. -/
theorem index_eq_get (ht : vec.elementType? = some t) (p : Double) :
    vec.index p = Indexing.get vec.elements p := by
  obtain ⟨s, hs, hsees, -⟩ := exists_sees ht
  rw [hsees.elements, Indexing.get_map, index, hs, Indexing.get]
  dsimp only
  cases Indexing.resolve "get" p s.items.length with
  | error e => rfl
  | ok i =>
    change (Indexing.element "get" p s.items i >>= _) = (Indexing.element "get" p s.items i).map _
    cases Indexing.element "get" p s.items i <;> rfl

theorem index_of_fallsOn {i : ℕ} (ht : vec.elementType? = some t)
    (hi : Indexing.FallsOn p vec.elements.length i) (hx : vec.elements[i]? = some x) :
    vec.index p = .ok x := by
  rw [index_eq_get ht, Indexing.get_eq_ok]
  exact ⟨i, hi, hx⟩

theorem exists_value (h : t.Has x) : ∃ y, t.value y = x := by
  cases t with
  | atom t =>
    obtain ⟨y, rfl⟩ := h
    exact ⟨y, rfl⟩
  | item t => exact ⟨x, rfl⟩

/-- **A value is stored** if the vector takes it and the position falls on an element.  The element
that was there is given back. -/
theorem setIndex_of_fallsOn {i : ℕ} (ht : vec.elementType? = some t) (hx : Stores t v x)
    (hi : Indexing.FallsOn p vec.elements.length i) :
    ∃ old after, vec.elements[i]? = some old ∧ Replaced vec i x after ∧
      vec.setIndex p v = .ok (old, after) := by
  obtain ⟨s, hs, hsees, rfl⟩ := exists_sees ht
  obtain ⟨y, rfl⟩ := exists_value hx.has
  rw [hsees.elements, List.length_map] at hi
  obtain ⟨z, hz⟩ := hi.exists_element
  refine ⟨s.type.value z, _, ?_, hsees.rebuild i y hi.lt, ?_⟩
  · rw [hsees.elements, List.getElem?_map, hz]
    rfl
  · rw [setIndex, hs]
    exact Outcome.bind_eq_ok.mpr ⟨y, storable_eq_ok.mpr hx, Outcome.bind_eq_ok.mpr
      ⟨i, Indexing.resolve_eq_ok.mpr hi, Outcome.bind_eq_ok.mpr
        ⟨z, Indexing.element_eq_ok.mpr hz, rfl⟩⟩⟩

theorem setIndex_of_unresolved {e : Error} (ht : vec.elementType? = some t) (hx : Stores t v x)
    (he : Indexing.resolve "set" p vec.elements.length = .error e) :
    vec.setIndex p v = .error e := by
  obtain ⟨s, hs, hsees, rfl⟩ := exists_sees ht
  obtain ⟨y, rfl⟩ := exists_value hx.has
  rw [hsees.elements, List.length_map] at he
  rw [setIndex, hs]
  exact Outcome.bind_eq_error.mpr (Or.inr ⟨y, storable_eq_ok.mpr hx,
    Outcome.bind_eq_error.mpr (Or.inl he)⟩)

/-- **A value that the vector does not take** is refused, wherever the position falls. -/
theorem setIndex_of_unstorable (ht : vec.elementType? = some t) (hx : ∀ x, ¬ Stores t v x) :
    ∃ e, vec.setIndex p v = .error e ∧ e.cause = .unsupported "index" v := by
  obtain ⟨s, hs, -, rfl⟩ := exists_sees ht
  rw [setIndex, hs]
  cases hstore : storable vec s.type v with
  | ok y => exact absurd (storable_eq_ok.mp hstore) (hx _)
  | error e => exact ⟨e, Outcome.bind_eq_error.mpr (Or.inl hstore), storable_eq_error hstore⟩

end Value

end Colloquy
