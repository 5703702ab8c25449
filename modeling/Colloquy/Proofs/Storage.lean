import Colloquy.Proofs.Indexing

/-!
# Indexed storage

A vector is read and written through any floating-point positions, in any order.  `Accessed` lists
what one access can do: it is refused because the value is no vector, because the vector does not
take what is written, or because the position falls on no element; or it reads an element, or it
replaces one.  The refusals are in the order in which they are looked for, and none changes the
vector.

From this follow the laws of a whole run (`Value.accesses`).  The form of the vector is kept
(`accesses_form`), and an element is what was last stored at a position that is rounded to its index,
or what it was at first (`recalls_accesses`).
-/

namespace Colloquy

open Indexing (FallsOn)

/-- **An access** to a vector. -/
inductive Access where
  | read (position : Double)
  | write (position : Double) (value : Value)

namespace Access

/-- An access and the answer to it. -/
abbrev Answered := Access × Except Error Value

/-- The value that an access stored at the index `i`, if it is a write that succeeded and its
position is rounded to `i`. -/
def storedAt? (i : ℕ) : Answered → Option Value
  | (.write p v, .ok _) => if p.NearestInteger i then some v else none
  | _ => none

/-- The value that was stored last at an index. -/
def lastStoredAt? (i : ℕ) (run : List Answered) : Option Value :=
  run.reverse.findSome? (storedAt? i)

theorem lastStoredAt?_cons (i : ℕ) (a : Answered) (run : List Answered) :
    lastStoredAt? i (a :: run) = (lastStoredAt? i run).or (storedAt? i a) := by
  unfold lastStoredAt?
  rw [List.reverse_cons, List.findSome?_append]
  cases h : storedAt? i a <;> simp [h]

end Access

namespace Value

/-- **A vector whose elements are of its type.**  Those of slices and arrays always are. -/
def WellTyped (vec : Value) : Prop :=
  ∀ t, vec.elementType? = some t → ∀ x ∈ vec.elements, t.Has x

theorem exists_atom_of_mem {vec x : Value} {t : AtomType} (ht : vec.elementType? = some (.atom t))
    (hx : x ∈ vec.elements) : ∃ y, x = atom t y := by
  obtain ⟨⟨_, items, rebuild⟩, -, hsees, rfl⟩ := exists_sees ht
  rw [hsees.elements] at hx
  obtain ⟨y, -, rfl⟩ := List.mem_map.mp hx
  exact ⟨y, rfl⟩

/-- **The form that a vector keeps**: its type, that of its elements, to which they keep, and its
length. -/
structure SameForm (vec after : Value) : Prop where
  typeName : after.typeName = vec.typeName
  elementType? : after.elementType? = vec.elementType?
  length : after.elements.length = vec.elements.length
  wellTyped : vec.WellTyped → after.WellTyped

theorem SameForm.refl (vec : Value) : SameForm vec vec := ⟨rfl, rfl, rfl, id⟩

theorem SameForm.trans {vec mid after : Value} (h : SameForm vec mid) (h' : SameForm mid after) :
    SameForm vec after :=
  ⟨h'.typeName.trans h.typeName, h'.elementType?.trans h.elementType?, h'.length.trans h.length,
    fun hw => h'.wellTyped (h.wellTyped hw)⟩

/-! ### One access -/

/-- **Does an access.**  Gives the answer, and the vector afterwards. -/
def access (vec : Value) : Access → Except Error Value × Value
  | .read p => (vec.index p, vec)
  | .write p v =>
    match vec.setIndex p v with
    | .ok (old, after) => (.ok old, after)
    | .error e => (.error e, vec)

/-- **What an access does**: its answer, and the vector afterwards. -/
inductive Accessed (vec : Value) : Access → Except Error Value → Value → Prop
  | notVector (a : Access) (ht : vec.elementType? = none) :
      Accessed vec a (.error (.unsupported "index" vec)) vec
  | notStored {t : ElementType} {p : Double} {v : Value} {e : Error}
      (ht : vec.elementType? = some t) (hx : ∀ x, ¬ Stores t v x)
      (he : e.cause = .unsupported "index" v) : Accessed vec (.write p v) (.error e) vec
  | readOutside {t : ElementType} {p : Double} {k : ℤ} (ht : vec.elementType? = some t)
      (hp : ∀ i, ¬ FallsOn p vec.elements.length i) :
      Accessed vec (.read p) (.error (.outOfBounds "get" p k vec.elements.length)) vec
  | writeOutside {t : ElementType} {p : Double} {v x : Value} {k : ℤ}
      (ht : vec.elementType? = some t) (hx : Stores t v x)
      (hp : ∀ i, ¬ FallsOn p vec.elements.length i) :
      Accessed vec (.write p v) (.error (.outOfBounds "set" p k vec.elements.length)) vec
  | read {t : ElementType} {p : Double} {i : ℕ} {x : Value} (ht : vec.elementType? = some t)
      (hi : FallsOn p vec.elements.length i) (hx : vec.elements[i]? = some x) :
      Accessed vec (.read p) (.ok x) vec
  | written {t : ElementType} {p : Double} {v x : Value} {i : ℕ} {old after : Value}
      (ht : vec.elementType? = some t) (hx : Stores t v x)
      (hi : FallsOn p vec.elements.length i) (hold : vec.elements[i]? = some old)
      (hr : Replaced vec i x after) : Accessed vec (.write p v) (.ok old) after

/-- **Every access** is one of these cases. -/
theorem accessed (vec : Value) (a : Access) :
    Accessed vec a (vec.access a).1 (vec.access a).2 := by
  cases ht : vec.elementType? with
  | none =>
    cases a with
    | read p =>
      simp only [access, index_of_not_vector ht]
      exact .notVector _ ht
    | write p v =>
      simp only [access, setIndex_of_not_vector ht]
      exact .notVector _ ht
  | some t =>
    cases a with
    | read p =>
      simp only [access, index_eq_get ht]
      obtain ⟨i, hi, -⟩ | ⟨hp, k, he⟩ := Indexing.resolve_cases "get" p vec.elements.length
      · obtain ⟨x, hx⟩ := hi.exists_element
        rw [Indexing.get_eq_ok.mpr ⟨i, hi, hx⟩]
        exact .read ht hi hx
      · rw [Indexing.get_eq_error.mpr he]
        exact .readOutside ht hp
    | write p v =>
      by_cases hx : ∃ x, Stores t v x
      · obtain ⟨x, hx⟩ := hx
        obtain ⟨i, hi, -⟩ | ⟨hp, k, he⟩ := Indexing.resolve_cases "set" p vec.elements.length
        · obtain ⟨old, after, hold, hr, heq⟩ := setIndex_of_fallsOn ht hx hi
          simp only [access, heq]
          exact .written ht hx hi hold hr
        · simp only [access, setIndex_of_unresolved ht hx he]
          exact .writeOutside ht hx hp
      · obtain ⟨e, he, hc⟩ := setIndex_of_unstorable (p := p) ht (not_exists.mp hx)
        simp only [access, he]
        exact .notStored ht (not_exists.mp hx) hc

theorem access_write {vec v x : Value} {t : ElementType} {p : Double} {i : ℕ}
    (ht : vec.elementType? = some t) (hx : Stores t v x) (hi : FallsOn p vec.elements.length i) :
    ∃ old after, vec.access (.write p v) = (.ok old, after) ∧ vec.index p = .ok old ∧
      Replaced vec i x after := by
  obtain ⟨old, after, hold, hr, heq⟩ := setIndex_of_fallsOn ht hx hi
  exact ⟨old, after, by simp only [access, heq], index_of_fallsOn ht hi hold, hr⟩

section Accessed
variable {vec after : Value} {a : Access} {r : Except Error Value}

theorem Accessed.of_error {e : Error} (h : Accessed vec a (.error e) after) : after = vec := by
  cases h <;> rfl

theorem Accessed.of_not_vector (h : Accessed vec a r after) (ht : vec.elementType? = none) :
    r = .error (.unsupported "index" vec) := by
  cases h with
  | notVector => rfl
  | notStored ht' | readOutside ht' | writeOutside ht' | read ht' | written ht' =>
    rw [ht] at ht'; cases ht'

theorem Accessed.of_unstorable {t : ElementType} {p : Double} {v : Value}
    (h : Accessed vec (.write p v) r after) (ht : vec.elementType? = some t)
    (hx : ∀ x, ¬ Stores t v x) : ∃ e, r = .error e ∧ e.cause = .unsupported "index" v := by
  cases h with
  | notVector _ ht' => rw [ht] at ht'; cases ht'
  | notStored _ _ he => exact ⟨_, rfl, he⟩
  | writeOutside ht' hx' | written ht' hx' =>
    cases ht.symm.trans ht'
    exact absurd hx' (hx _)

theorem Accessed.form (h : Accessed vec a r after) : SameForm vec after := by
  cases h with
  | @written t p v x i old after ht hx hi hold hr =>
    refine ⟨hr.typeName_eq, hr.elementType?_eq, hr.length_eq, fun hw u hu y hy => ?_⟩
    rw [hr.elementType?_eq] at hu
    rw [hr.elements_eq] at hy
    rcases List.mem_or_eq_of_mem_set hy with hy | rfl
    · exact hw u hu y hy
    · obtain rfl := Option.some.inj (ht.symm.trans hu)
      exact hx.has
  | _ => exact .refl vec

end Accessed

/-- What the element of `vec` at `i` is after a run that stored `last` there last, or nothing. -/
def Recalls (vec : Value) (i : ℕ) (last : Option Value) (x : Value) : Prop :=
  match last with
  | some v => ∃ t, vec.elementType? = some t ∧ Stores t v x
  | none => vec.elements[i]? = some x

theorem Accessed.recalls {vec after : Value} {a : Access} {r : Except Error Value}
    (h : Accessed vec a r after) {i : ℕ} {x : Value} (hx : after.elements[i]? = some x) :
    Recalls vec i (Access.storedAt? i (a, r)) x := by
  cases h with
  | @written t p v y j old after ht hy hj hold hr =>
    rw [hr.elements_eq] at hx
    simp only [Access.storedAt?]
    split_ifs with hp
    · -- the position written is rounded to `i` and to `j`
      obtain rfl : i = j := by exact_mod_cast hp.unique hj.nearest
      rw [List.getElem?_set_self hj.lt] at hx
      obtain rfl := Option.some.inj hx
      exact ⟨t, ht, hy⟩
    · have hne : j ≠ i := by
        rintro rfl
        exact hp hj.nearest
      rwa [List.getElem?_set_ne hne] at hx
  | notVector a ht => cases a <;> exact hx
  | _ => exact hx

/-- Writing back what a write gave restores the vector. -/
theorem Accessed.restore {vec after old : Value} {p q : Double} {v : Value} {i : ℕ}
    (h : Accessed vec (.write p v) (.ok old) after) (hi : FallsOn p vec.elements.length i)
    (hq : q.NearestInteger i) (hw : vec.WellTyped) (hne : old ≠ absent) :
    ∃ x, after.access (.write q old) = (.ok x, vec) := by
  cases h with
  | @written t _ _ x j _ _ ht hx hj hold hr =>
    obtain rfl := hi.unique hj
    have ht' : after.elementType? = some t := hr.elementType?_eq.trans ht
    have hs : Stores t old old := stores_of_has (hw t ht old (List.mem_of_getElem? hold)) hne
    have hfalls : FallsOn q after.elements.length i := ⟨hq, hr.length_eq ▸ hi.lt_roundNat⟩
    obtain ⟨y, back, hy, hback, heq⟩ := setIndex_of_fallsOn ht' hs hfalls
    refine ⟨y, ?_⟩
    simp only [access, heq]
    rw [(hr.symm hold).unique hback]

/-! ### Runs -/

/-- **Does accesses** one after the other.  Gives them with their answers, and the vector at the
end. -/
def accesses (vec : Value) : List Access → List Access.Answered × Value
  | [] => ([], vec)
  | a :: as =>
    let r := vec.access a
    let rs := r.2.accesses as
    ((a, r.1) :: rs.1, rs.2)

theorem accesses_form (vec : Value) (as : List Access) :
    SameForm vec (vec.accesses as).2 := by
  induction as generalizing vec with
  | nil => exact .refl vec
  | cons a as ih => exact (accessed vec a).form.trans (ih (vec.access a).2)

/-- **An element after a run.** -/
theorem recalls_accesses (vec : Value) (as : List Access) {i : ℕ} {x : Value}
    (hx : (vec.accesses as).2.elements[i]? = some x) :
    Recalls vec i (Access.lastStoredAt? i (vec.accesses as).1) x := by
  induction as generalizing vec with
  | nil => exact hx
  | cons a as ih =>
    have hrun := ih (vec.access a).2 hx
    simp only [accesses]
    rw [Access.lastStoredAt?_cons]
    cases hl : Access.lastStoredAt? i ((vec.access a).2.accesses as).1 with
    | some v =>
      -- something was stored there later: the type of the elements is the same by then
      rw [hl] at hrun
      obtain ⟨t, ht, hx⟩ := hrun
      exact ⟨t, (accessed vec a).form.elementType?.symm.trans ht, hx⟩
    | none =>
      rw [hl] at hrun
      rw [Option.none_or]
      exact (accessed vec a).recalls hrun

/-- **Indexed storage over whole runs.**  Whatever was read and written before:
the vector has kept its type, the type of its elements and its length, and the elements are of that
type if they were so at first;
a read at a position that falls on an element succeeds, and gives what was last stored at a position
that is rounded to the same index, or the first element;
a write there of a value that the vector takes succeeds, gives what a read would have given just
before, and replaces that element alone; writing back what it gave, if it is a value at all, restores
the vector;
every access is one of the cases of `Accessed`, and one that fails leaves the vector as it was;
what is no vector, or does not fit into the vector, is refused wherever the position falls.
Among items, a value is kept as it is, up to the name of its type. -/
theorem storage_over_runs (vec : Value) (as : List Access) :
    let run := (vec.accesses as).1
    let now := (vec.accesses as).2
    let n := vec.elements.length
    (now.typeName = vec.typeName ∧ now.elementType? = vec.elementType? ∧ now.elements.length = n ∧
      (vec.WellTyped → now.WellTyped) ∧
      ∀ t, vec.elementType? = some (.atom t) → ∀ x ∈ now.elements, ∃ y, x = atom t y) ∧
    (n ≤ 2 ^ 53 → ∀ p i, FallsOn p n i ↔ p.NearestInteger i ∧ i < n) ∧
    (∀ t p i, vec.elementType? = some t → FallsOn p n i →
      ∃ x, now.index p = .ok x ∧ Recalls vec i (Access.lastStoredAt? i run) x) ∧
    (∀ t p v x i, vec.elementType? = some t → Stores t v x → FallsOn p n i →
      ∃ old after, now.access (.write p v) = (.ok old, after) ∧ now.index p = .ok old ∧
        Replaced now i x after ∧ (∀ j, j ≠ i → after.elements[j]? = now.elements[j]?) ∧
        (vec.WellTyped → old ≠ absent → ∀ q, q.NearestInteger i →
          ∃ y, after.access (.write q old) = (.ok y, now))) ∧
    (∀ a, Accessed now a (now.access a).1 (now.access a).2) ∧
    (∀ a e, (now.access a).1 = .error e → (now.access a).2 = now) ∧
    (vec.elementType? = none → ∀ a, (now.access a).1 = .error (.unsupported "index" now)) ∧
    (∀ t p v, vec.elementType? = some t → (∀ x, ¬ Stores t v x) →
      ∃ e, (now.access (.write p v)).1 = .error e ∧ e.cause = .unsupported "index" v) ∧
    ∀ t v x, Stores (.item t) v x → t.Has x ∧ x.bare = v.bare := by
  intro run now n
  have hform : SameForm vec now := accesses_form vec as
  have hfalls {p : Double} {i : ℕ} (hi : FallsOn p n i) : FallsOn p now.elements.length i := by
    rwa [hform.length]
  refine ⟨⟨hform.typeName, hform.elementType?, hform.length, hform.wellTyped,
    fun t ht x hx => exists_atom_of_mem (hform.elementType?.trans ht) hx⟩,
    fun hn p i => Indexing.fallsOn_iff_of_le hn, fun t p i ht hi => ?_,
    fun t p v x i ht hx hi => ?_, accessed now, fun a e he => ?_, fun ht a => ?_,
    fun t p v ht hx => ?_, fun t v x hx => ⟨hx.has, hx.bare_eq⟩⟩
  · obtain ⟨x, hx⟩ := (hfalls hi).exists_element
    exact ⟨x, index_of_fallsOn (hform.elementType?.trans ht) (hfalls hi) hx,
      recalls_accesses vec as hx⟩
  · obtain ⟨old, after, haccess, hread, hr⟩ :=
      access_write (hform.elementType?.trans ht) hx (hfalls hi)
    refine ⟨old, after, haccess, hread, hr, fun j hj => ?_, fun hw hne q hq => ?_⟩
    · rw [hr.elements_eq, List.getElem?_set_ne hj.symm]
    · have h := accessed now (.write p v)
      rw [haccess] at h
      exact h.restore (hfalls hi) hq (hform.wellTyped hw) hne
  · have h := accessed now a
    rw [he] at h
    exact h.of_error
  · exact (accessed now a).of_not_vector (hform.elementType?.trans ht)
  · exact (accessed now (.write p v)).of_unstorable (hform.elementType?.trans ht) hx

end Value

end Colloquy
