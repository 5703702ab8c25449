import Colloquy.Proofs.Number.Narrowing
import Colloquy.Proofs.Storage

/-!
# Numbers stored in another width

A vector of numbers takes numbers of both widths and of any name, and keeps each in its own width.
`Keeps vec p v w` says that storing `v` at the position `p` succeeds, and that `w` is read there
afterwards.  What is kept of a double among singles is the nearest single (`Binary.Narrows`), and
what is kept of a single among doubles is the double of the same value (`Binary.Same`), from which
the single comes back.

* `keeps_of_stores`: a vector keeps what `Stores` says, wherever the position falls on an element.
* `setIndex_kept`: storing what was kept changes nothing.
-/

namespace Colloquy

namespace Value

/-- **A place in a vector** of elements of type `t`: the position `p` falls on one of them. -/
structure Place (vec : Value) (t : AtomType) (p : Double) : Prop where
  type : vec.elementType? = some (.atom t)
  element : ∃ i, Indexing.FallsOn p vec.elements.length i

/-- **What is kept of a value**: storing `v` succeeds, and `w` is read at the same position
afterwards. -/
def Keeps (vec : Value) (p : Double) (v w : Value) : Prop :=
  ∃ old after, vec.setIndex p v = .ok (old, after) ∧ after.index p = .ok w

section Stored
variable {vec v x after : Value} {t : ElementType} {p : Double} {i : ℕ}

theorem index_of_replaced (ht : vec.elementType? = some t)
    (hi : Indexing.FallsOn p vec.elements.length i) (hr : Replaced vec i x after) :
    after.index p = .ok x := by
  refine index_of_fallsOn (hr.elementType?_eq.trans ht) ?_ (hr.getElem?_eq hi.lt)
  rwa [hr.length_eq]

theorem keeps_of_stores (ht : vec.elementType? = some t) (hx : Stores t v x)
    (hi : Indexing.FallsOn p vec.elements.length i) : Keeps vec p v x := by
  obtain ⟨old, after, -, hr, hset⟩ := setIndex_of_fallsOn ht hx hi
  exact ⟨old, after, hset, index_of_replaced ht hi hr⟩

/-- **Storing once more what was kept** gives it back and leaves the vector as it is. -/
theorem setIndex_kept {old w : Value} (hset : vec.setIndex p v = .ok (old, after))
    (hw : after.index p = .ok w) : after.setIndex p w = .ok (w, after) := by
  have haccess := accessed vec (.write p v)
  simp only [access, hset] at haccess
  cases haccess with
  | @written t _ _ x i _ _ ht hx hi _ hr =>
    obtain rfl : x = w := Except.ok.inj ((index_of_replaced ht hi hr).symm.trans hw)
    have ht' : after.elementType? = some t := hr.elementType?_eq.trans ht
    have hs : Stores t x x := stores_of_has hx.has hx.ne_absent.2
    have hi' : Indexing.FallsOn p after.elements.length i := by rwa [hr.length_eq]
    obtain ⟨y, after', hy, hr', hset'⟩ := setIndex_of_fallsOn ht' hs hi'
    obtain rfl : y = x := Option.some.inj (hy.symm.trans (hr.getElem?_eq hi.lt))
    rw [hset', hr.again.unique hr']

end Stored

/-- **Numbers between the widths.**  Whatever the names of the types are: a double that is stored
among singles is kept as the nearest single, a single that is stored among doubles is kept as the
double of its exact value, and what was kept of it is a single again as it was.  What was kept of
any value is not changed by storing it once more. -/
theorem storing_between_widths :
    (∀ vec m p, Place vec (.scalar ⟨m, .single⟩) p → ∀ n (y : Double), y ≠ .nan →
      ∃ z : Single, Binary.Narrows y z ∧
        Keeps vec p (scalar ⟨n, .double⟩ y) (scalar ⟨m, .single⟩ z)) ∧
    (∀ vec m p, Place vec (.scalar ⟨m, .double⟩) p → ∀ n (x : Single), x ≠ .nan →
      ∃ y : Double, Binary.Same x y ∧
        Keeps vec p (scalar ⟨n, .single⟩ x) (scalar ⟨m, .double⟩ y) ∧
        ∀ vec' k q, Place vec' (.scalar ⟨k, .single⟩) q →
          Keeps vec' q (scalar ⟨m, .double⟩ y) (scalar ⟨k, .single⟩ x)) ∧
    ∀ (vec : Value) (p : Double) (v old after w : Value), vec.setIndex p v = .ok (old, after) →
      after.index p = .ok w → after.setIndex p w = .ok (w, after) := by
  refine ⟨fun vec m p hplace n y hy => ?_, fun vec m p hplace n x _ => ?_,
    fun vec p v old after w => setIndex_kept⟩
  · obtain ⟨i, hi⟩ := hplace.element
    exact ⟨_, Binary.narrows_convert hy, keeps_of_stores hplace.type (.narrowed m n y) hi⟩
  · have hsame := Binary.same_convert x
    obtain ⟨i, hi⟩ := hplace.element
    refine ⟨_, hsame, keeps_of_stores hplace.type (.widened m n x) hi, fun vec' k q hplace' => ?_⟩
    obtain ⟨j, hj⟩ := hplace'.element
    have hback := Stores.narrowed k m (Binary.convert x)
    rw [hsame.convert_eq] at hback
    exact keeps_of_stores hplace'.type hback hj

/-- A double halfway between one and the next single, among singles of a named type, and the least
positive single among doubles and back. -/
theorem storing_between_widths_halfway :
    let p : Double := .finite false ⟨0, by decide⟩
    let y : Double := .finite false ⟨0x3FF0000010000000, by decide⟩
    let x : Single := .finite true ⟨1, by decide⟩
    let singles := slice none (.scalar ⟨some "Num32", .single⟩) (some [x])
    let doubles := slice none (.scalar ⟨none, .double⟩) (some [y])
    Place singles (.scalar ⟨some "Num32", .single⟩) p ∧ Place doubles (.scalar ⟨none, .double⟩) p ∧
      y ≠ .nan ∧ x ≠ .nan ∧ Binary.convert y = (.finite false ⟨0x3F800000, by decide⟩ : Single) ∧
      (∃ z, Binary.Narrows y z ∧ Keeps singles p (.num y) (scalar ⟨some "Num32", .single⟩ z)) ∧
      (∃ y', Binary.Same x y' ∧ Keeps doubles p (.single x) (.num y') ∧
        Keeps singles p (.num y') (scalar ⟨some "Num32", .single⟩ x)) ∧
      ∃ old after w, singles.setIndex p (.num y) = .ok (old, after) ∧ after.index p = .ok w ∧
        after.setIndex p w = .ok (w, after) := by
  intro p y x singles doubles
  have hfirst : Indexing.FallsOn p 1 0 := by decide +kernel
  have hsingles : Place singles (.scalar ⟨some "Num32", .single⟩) p := ⟨rfl, 0, hfirst⟩
  have hdoubles : Place doubles (.scalar ⟨none, .double⟩) p := ⟨rfl, 0, hfirst⟩
  have hy : y ≠ .nan := by simp [y]
  have hx : x ≠ .nan := by simp [x]
  obtain ⟨hnarrow, hwiden, hagain⟩ := storing_between_widths
  obtain ⟨z, hz, hkeeps⟩ := hnarrow singles _ p hsingles none y hy
  obtain ⟨y', hsame, hkeeps', hback⟩ := hwiden doubles _ p hdoubles none x hx
  obtain ⟨old, after, hset, hread⟩ := hkeeps
  exact ⟨hsingles, hdoubles, hy, hx, by decide +kernel, ⟨z, hz, old, after, hset, hread⟩,
    ⟨y', hsame, hkeeps', hback singles _ p hsingles⟩,
    old, after, _, hset, hread, hagain singles p _ old after _ hset hread⟩

end Value

end Colloquy
