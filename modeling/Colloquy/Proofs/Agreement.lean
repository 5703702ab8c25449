import Colloquy.Proofs.Calling
import Colloquy.Proofs.Indexing
import Colloquy.Proofs.Number.Exact

/-!
# One way of indexing

Elements are read and replaced in three ways: in a list of elements of one type (`Indexing.get`,
`Indexing.set`), in a value that turns out to be a vector (`Value.index`, `Value.setIndex`), and by
calls of the builtin `index`.  All three give the same elements and the same errors, and leave the
same vector behind.  The vectors are those of `VectorOf`: slices of any type of atoms, arrays of any
type of scalars, lists of items of any type, among them lists of arbitrary values, and vectors of
named types over these.

* `VectorOf.index_eq`, `VectorOf.setIndex_eq`: a vector is indexed as the list of its elements is.
* `Registry.call_index_read`, `Registry.call_index_replace`: a call does what is done to the value.
* `position_of_stands`: a single stands for the double of the same value.
-/

namespace Colloquy

/-! ### Vectors -/

namespace Value

/-- **A type of vectors** with elements of type `α`: how an element is a value, and how a vector is
made of a list of elements, which may be missing. -/
inductive VectorOf : (α : Type) → (α → Value) → (Option (List α) → Value) → Prop
  | slice (o : Option Text) (t : AtomType) : VectorOf t.Carrier (atom t) (slice o t)
  | array (o : Option Text) (t : ScalarType) : VectorOf t.Carrier (scalar t) (array o t)
  | list (o : Option Text) : VectorOf Value id (list o .any)
  | items (o : Option Text) (t : ItemType) : VectorOf { v : Value // t.Has v } Subtype.val
      fun vs => list o t (vs.map (·.map Subtype.val))
  | named (n : Text) {α : Type} {inject : α → Value} {build : Option (List α) → Value}
      (h : VectorOf α inject build) : VectorOf α inject fun xs => named n (build xs)

variable {α : Type} {inject : α → Value} {build : Option (List α) → Value}

/-- The vector after a replacement in the list of its elements: as it was, if that fails. -/
def leftBy (build : Option (List α) → Value) (items : Option (List α)) :
    Except Error (α × List α) → Value
  | .ok (_, ys) => build (some ys)
  | .error _ => build items

theorem VectorOf.exists_type (h : VectorOf α inject build) (items : Option (List α)) :
    ∃ t, (build items).elementType? = some t ∧
      ∀ x, inject x ≠ absent → Stores t (inject x) (inject x) := by
  induction h with
  | slice o t => exact ⟨.atom t, rfl, fun x _ => .same t x⟩
  | array o t => exact ⟨.atom (.scalar t), rfl, fun x _ => .same (.scalar t) x⟩
  | list o => exact ⟨.item .any, rfl, fun x hx => .implementing hx rfl⟩
  | items o t => exact ⟨.item t, rfl, fun x hx => stores_of_has x.2 hx⟩
  | named n _ ih => exact ih items

theorem VectorOf.elements_eq (h : VectorOf α inject build) (items : Option (List α)) :
    (build items).elements = (items.getD []).map inject := by
  induction h with
  | slice | array => rfl
  | list => exact (List.map_id _).symm
  | items => cases items <;> rfl
  | named n _ ih => exact ih items

theorem VectorOf.replaced (h : VectorOf α inject build) (xs : List α) (i : ℕ) (x : α) :
    Replaced (build (some xs)) i (inject x) (build (some (xs.set i x))) := by
  induction h with
  | slice o t => exact .slice o t xs i x
  | array o t => exact .array o t xs i x
  | list o => exact .list o .any xs i x
  | items o t =>
    have := Replaced.list o t (xs.map Subtype.val) i x.1
    rwa [← List.map_set] at this
  | named n _ ih => exact .named n (ih xs x)

theorem VectorOf.index_eq (h : VectorOf α inject build) (items : Option (List α)) (p : Double) :
    (build items).index p = (Indexing.get (items.getD []) p).map inject := by
  obtain ⟨t, ht, -⟩ := h.exists_type items
  rw [index_eq_get ht, h.elements_eq, Indexing.get_map]

theorem VectorOf.setIndex_eq (h : VectorOf α inject build) (items : Option (List α)) (p : Double)
    {x : α} (hx : inject x ≠ absent) :
    (build items).setIndex p (inject x) =
      (Indexing.set (items.getD []) p x).map fun r => (inject r.1, build (some r.2)) := by
  obtain ⟨t, ht, hstores⟩ := h.exists_type items
  have hlen : (build items).elements.length = (items.getD []).length := by
    rw [h.elements_eq, List.length_map]
  obtain ⟨i, hi, -⟩ | ⟨-, k, he⟩ := Indexing.resolve_cases "set" p (items.getD []).length
  · obtain ⟨old, hold⟩ := hi.exists_element
    obtain ⟨v, after, hv, hr, hset⟩ := setIndex_of_fallsOn ht (hstores x hx) (hlen ▸ hi)
    obtain rfl : inject old = v := by simpa [h.elements_eq, hold] using hv
    -- the vector has an element, so it is not missing
    obtain ⟨xs, rfl⟩ : ∃ xs, items = some xs := by
      cases items with
      | none => cases hold
      | some xs => exact ⟨xs, rfl⟩
    rw [hset, Indexing.set_of_fallsOn hi hold, (h.replaced xs i x).unique hr]
    rfl
  · have he' := he
    rw [← hlen] at he'
    rw [setIndex_of_unresolved ht (hstores x hx) he', hlen, Indexing.set_of_unresolved he]
    rfl

end Value

/-! ### Positions -/

namespace Binary

theorem Same.unique {f g : Format} {x : Binary f} {y z : Binary g} (hy : Same x y)
    (hz : Same x z) : y = z := by
  cases hy with
  | nan => cases hz; rfl
  | infinite s => cases hz; rfl
  | @finite s c d hd =>
    cases hz with
    | @finite s c e he =>
      have hvalue : g.value d = g.value e := hd.symm.trans he
      have hunits : g.units d = g.units e := by
        rw [Format.value, Format.value, div_left_inj' (by positivity)] at hvalue
        exact_mod_cast hvalue
      rw [Fin.ext (Format.units_strictMono.injective hunits)]

end Binary

namespace Builtin

/-- **The position that an argument stands for**: a double is one, and a single stands for the
double of its exact value. -/
inductive Stands : Value → Double → Prop
  | double (p : Double) : Stands (.num p) p
  | single {x : Single} {p : Double} (h : Binary.Same x p) : Stands (.single x) p

theorem position_of_stands {arg : Value} {p : Double} (h : Stands arg p) :
    position arg = .ok p := by
  cases h with
  | double p => rfl
  | @single x p h =>
    rw [← (Binary.same_convert x).unique h]
    rfl

end Builtin

/-! ### Calls -/

namespace Reply

/-- What a reply comes to: its error, or its value. -/
def outcome (a : Reply) : Except Error Value :=
  match a.error with
  | none => .ok a.value
  | some e => .error e

end Reply

namespace Registry

theorem Settles.outcome_eq {name : Text} {a reply : Reply} (h : Settles name a reply) :
    reply.outcome = a.outcome ∧ reply.arguments = a.arguments := by
  cases h with
  | returned => exact ⟨rfl, rfl⟩
  | failed he =>
    refine ⟨?_, rfl⟩
    simp only [Reply.outcome, he]

section Index
variable {r : Registry} (hr : r.find? "index" = some Builtin.index) {arg : Value} {p : Double}
  (h : Builtin.Stands arg p) (c : Console) (vec : Value)
include hr h

theorem call_index_read :
    (r.call .live "index" [vec, arg] c).outcome = vec.index p ∧
      (r.call .live "index" [vec, arg] c).arguments = [vec, arg] := by
  have hgate : r.gate .live "index" [vec, arg].length = .ok Builtin.indexAction := by
    rw [gate, hr]
    rfl
  obtain ⟨houtcome, hargs⟩ := (settles_call hgate c).outcome_eq
  rw [houtcome, hargs]
  have haction : Builtin.indexAction [vec, arg] c = Builtin.answer [vec, arg] c (vec.index p) := by
    rw [Builtin.indexAction, Builtin.position_of_stands h]
    rfl
  rw [haction]
  cases vec.index p <;> exact ⟨rfl, rfl⟩

theorem call_index_replace (v : Value) :
    (r.call .live "index" [vec, arg, v] c).outcome = (vec.setIndex p v).map Prod.fst ∧
      (r.call .live "index" [vec, arg, v] c).arguments =
        [((vec.setIndex p v).map Prod.snd).toOption.getD vec, arg, v] := by
  have hgate : r.gate .live "index" [vec, arg, v].length = .ok Builtin.indexAction := by
    rw [gate, hr]
    rfl
  obtain ⟨houtcome, hargs⟩ := (settles_call hgate c).outcome_eq
  rw [houtcome, hargs]
  have hposition : (Builtin.position arg >>= fun x => vec.setIndex x v) = vec.setIndex p v := by
    rw [Builtin.position_of_stands h]
    rfl
  rw [Builtin.indexAction, hposition]
  cases vec.setIndex p v <;> exact ⟨rfl, rfl⟩

end Index

end Registry

namespace Value

/-- **All ways of indexing agree.**  For every type of vectors, every vector of it and every
position, reading from the vector and replacing in it by a value of the type of its elements are
reading from the list of its elements and replacing in it; so is a call of the builtin `index` by a
double or by a single, which stands for the double of its exact value.  The elements and the errors
are the same, and so is the vector that is left. -/
theorem indexing_agrees {α : Type} {inject : α → Value} {build : Option (List α) → Value}
    (h : VectorOf α inject build) (items : Option (List α)) :
    let vec := build items
    let xs := items.getD []
    (∀ p, vec.index p = (Indexing.get xs p).map inject) ∧
    (∀ p x, inject x ≠ absent → vec.setIndex p (inject x) =
      (Indexing.set xs p x).map fun r => (inject r.1, build (some r.2))) ∧
    (∀ y : Single, ∃ p : Double, Binary.Same y p) ∧
    ∀ r : Registry, r.find? "index" = some Builtin.index →
      ∀ arg p, Builtin.Stands arg p → ∀ c : Console,
        ((r.call .live "index" [vec, arg] c).outcome = (Indexing.get xs p).map inject ∧
          (r.call .live "index" [vec, arg] c).arguments = [vec, arg]) ∧
        ∀ x, inject x ≠ absent →
          (r.call .live "index" [vec, arg, inject x] c).outcome =
            (Indexing.set xs p x).map (fun r => inject r.1) ∧
          (r.call .live "index" [vec, arg, inject x] c).arguments =
            [leftBy build items (Indexing.set xs p x), arg, inject x] := by
  intro vec xs
  refine ⟨h.index_eq items, fun p x hx => h.setIndex_eq items p hx,
    fun y => ⟨_, Binary.same_convert y⟩, fun r hr arg p hp c => ⟨?_, fun x hx => ?_⟩⟩
  · rw [← h.index_eq items p]
    exact Registry.call_index_read hr hp c vec
  · obtain ⟨houtcome, hargs⟩ := Registry.call_index_replace hr hp c vec (inject x)
    rw [houtcome, hargs, h.setIndex_eq items p hx]
    cases Indexing.set xs p x <;> exact ⟨rfl, rfl⟩

/-- A list of an integer, nothing and a string, with its last element replaced at one and a half,
given as a single. -/
theorem indexing_agrees_list :
    let r := (Registry.empty.registerDefaults ⟨.plain, false⟩).2
    let arg := Value.single (.finite false ⟨0x3FC00000, by decide⟩)
    let vs := [Value.int 7, Value.absent, Value.str "a"]
    let vec := Value.list none .any (some vs)
    let reply := r.call .live "index" [vec, arg, .bool true] (Console.new none true)
    VectorOf Value id (list none .any) ∧ r.find? "index" = some Builtin.index ∧
      (∃ p, Builtin.Stands arg p) ∧ id (Value.bool true) ≠ absent ∧
      reply.outcome = .ok (.str "a") ∧
      reply.arguments =
        [.list none .any (some [.int 7, .absent, .bool true]), arg, .bool true] := by
  intro r arg vs vec reply
  let p : Double := .finite false ⟨0x3FF8000000000000, by decide⟩
  have hp : Builtin.Stands arg p := .single (.finite false (by decide +kernel))
  have hvalue : id (Value.bool true) ≠ absent := Value.noConfusion
  have hset : Indexing.set vs p (Value.bool true) =
      .ok (Value.str "a", [.int 7, .absent, .bool true]) :=
    Indexing.set_of_fallsOn (i := 2) (by decide +kernel) rfl
  have hagrees := ((indexing_agrees (.list none) (some vs)).2.2.2 r rfl arg p hp
    (Console.new none true)).2 (Value.bool true) hvalue
  rw [Option.getD_some, hset] at hagrees
  exact ⟨.list none, rfl, ⟨p, hp⟩, hvalue, hagrees⟩

end Value

end Colloquy
