import Colloquy.Registry
import Mathlib.Data.List.Induction
import Mathlib.Data.List.Nodup
import Mathlib.Logic.Function.Basic

/-!
# Registries as partial maps

A registry is a list of builtins, and is used as a partial map from names to builtins
(`Registry.find?`).  The list is *well formed* if its builtins are valid and have different names;
all operations keep it so.  On well-formed registries `Acts` lists what an operation does to the map
and what it answers, and `WellFormed.acts` says that every operation is one of these cases.

* `wellFormed_run`: every registry that operations lead to is well formed.
* `find?_run`: a builtin is found under a name exactly if it was registered with success under that
  name, and the name was not removed since.
* `list_sorted`, `list_eq_of_perm`: the listing is strictly sorted by name, and is the same in
  whatever order the builtins are gone through.
-/

namespace Colloquy

/-! ### Valid builtins -/

namespace Builtin

/-- **A valid builtin** has a name and an action, and some number of arguments that fits. -/
structure Valid (b : Builtin) : Prop where
  named : b.name ≠ []
  implemented : ∃ act, b.action = some act
  least_nonneg : 0 ≤ b.least
  bounds : b.most < 0 ∨ b.least ≤ b.most

theorem fault?_eq_none {b : Builtin} : b.fault? = none ↔ b.Valid := by
  unfold fault?
  split_ifs with hn ha hb
  · refine iff_of_false (by simp) fun h => h.named (by simpa using hn)
  · refine iff_of_false (by simp) fun h => ?_
    obtain ⟨act, hact⟩ := h.implemented
    simp [hact] at ha
  · refine iff_of_false (by simp) fun h => ?_
    have h1 := h.least_nonneg
    have h2 := h.bounds
    omega
  · refine iff_of_true rfl ⟨by simpa using hn, ?_, by omega, by omega⟩
    exact Option.isSome_iff_exists.mp (by simpa [Option.isSome_iff_ne_none] using ha)

end Builtin

namespace Registry

/-! ### Well-formed registries -/

/-- A registry with valid builtins under different names. -/
structure WellFormed (r : Registry) : Prop where
  valid : ∀ b ∈ r.builtins, b.Valid
  names : (r.builtins.map Builtin.name).Nodup

theorem wellFormed_empty : empty.WellFormed := ⟨by simp [empty], by simp [empty]⟩

theorem mem_of_find? {r : Registry} {n : Text} {b : Builtin} (h : r.find? n = some b) :
    b ∈ r.builtins ∧ b.name = n :=
  ⟨List.mem_of_find?_eq_some h, by simpa using List.find?_some h⟩

theorem find?_eq_none {r : Registry} {n : Text} :
    r.find? n = none ↔ ∀ b ∈ r.builtins, b.name ≠ n := by
  simp [find?]

theorem WellFormed.find?_eq_some {r : Registry} (h : r.WellFormed) {n : Text} {b : Builtin} :
    r.find? n = some b ↔ b ∈ r.builtins ∧ b.name = n := by
  refine ⟨mem_of_find?, ?_⟩
  rintro ⟨hb, rfl⟩
  cases hf : r.find? b.name with
  | none => exact absurd rfl (find?_eq_none.mp hf b hb)
  | some c =>
    obtain ⟨hc, hn⟩ := mem_of_find? hf
    rw [List.inj_on_of_nodup_map h.names hc hb hn]

/-- Two well-formed registries with the same builtins are the same map. -/
theorem WellFormed.ext_find? {r : Registry} (h : r.WellFormed) {m : Text → Option Builtin}
    (hm : ∀ n b, m n = some b ↔ b ∈ r.builtins ∧ b.name = n) : r.find? = m := by
  funext n
  refine Option.ext fun b => ?_
  rw [h.find?_eq_some, hm]

/-! ### Registering and removing -/

theorem WellFormed.push {r : Registry} (h : r.WellFormed) {b : Builtin} (hb : b.Valid)
    (hn : r.find? b.name = none) : WellFormed ⟨r.builtins ++ [b]⟩ := by
  rw [find?_eq_none] at hn
  refine ⟨?_, ?_⟩
  · intro c hc
    rcases List.mem_append.mp hc with hc | hc
    · exact h.valid c hc
    · rw [List.mem_singleton.mp hc]
      exact hb
  · rw [List.map_append, List.nodup_append]
    refine ⟨h.names, by simp, ?_⟩
    intro x hx y hy
    obtain ⟨c, hc, rfl⟩ := List.mem_map.mp hx
    obtain rfl : y = b.name := by simpa using hy
    exact hn c hc

theorem WellFormed.remove {r : Registry} (h : r.WellFormed) (n : Text) :
    WellFormed ⟨r.builtins.filter (·.name != n)⟩ :=
  ⟨fun b hb => h.valid b (List.mem_filter.mp hb).1, h.names.sublist (List.filter_sublist.map _)⟩

theorem find?_push {r : Registry} (h : r.WellFormed) {b : Builtin} (hb : b.Valid)
    (hn : r.find? b.name = none) :
    find? ⟨r.builtins ++ [b]⟩ = Function.update r.find? b.name (some b) := by
  refine (h.push hb hn).ext_find? fun n c => ?_
  rw [List.mem_append, List.mem_singleton, Function.update_apply]
  split_ifs with he
  · -- under the new name there was nothing before
    subst he
    rw [find?_eq_none] at hn
    refine ⟨by rintro ⟨⟩; exact ⟨.inr rfl, rfl⟩, ?_⟩
    rintro ⟨hc | rfl, hcn⟩
    · exact absurd hcn (hn c hc)
    · rfl
  · rw [h.find?_eq_some]
    refine ⟨fun hc => ⟨.inl hc.1, hc.2⟩, ?_⟩
    rintro ⟨hc | rfl, rfl⟩
    · exact ⟨hc, rfl⟩
    · exact absurd rfl he

theorem find?_remove {r : Registry} (h : r.WellFormed) (n : Text) :
    find? ⟨r.builtins.filter (·.name != n)⟩ = Function.update r.find? n none := by
  refine (h.remove n).ext_find? fun k c => ?_
  rw [List.mem_filter, Function.update_apply, bne_iff_ne]
  split_ifs with he
  · refine iff_of_false (by simp) ?_
    rintro ⟨⟨-, hc⟩, rfl⟩
    exact hc he
  · rw [h.find?_eq_some]
    refine ⟨?_, fun hc => ⟨hc.1.1, hc.2⟩⟩
    rintro ⟨hc, rfl⟩
    exact ⟨⟨hc, he⟩, rfl⟩

/-! ### Listing -/

theorem insert_perm (b : Builtin) (bs : List Builtin) : (insert b bs).Perm (b :: bs) := by
  induction bs with
  | nil => exact .refl _
  | cons c cs ih =>
    unfold insert
    split_ifs
    · exact (ih.cons c).trans (.swap b c cs)
    · exact .refl _

theorem list_perm (r : Registry) : r.list.Perm r.builtins := by
  obtain ⟨bs⟩ := r
  induction bs with
  | nil => exact .refl _
  | cons b bs ih => exact (insert_perm b _).trans (ih.cons b)

theorem insert_sorted {b : Builtin} {bs : List Builtin} (hs : bs.Pairwise (·.name < ·.name))
    (hb : ∀ c ∈ bs, c.name ≠ b.name) : (insert b bs).Pairwise (·.name < ·.name) := by
  induction bs with
  | nil => simp [insert]
  | cons c cs ih =>
    obtain ⟨hc, hcs⟩ := List.pairwise_cons.mp hs
    unfold insert Text.before
    split_ifs with hlt
    · refine List.pairwise_cons.mpr ⟨?_, ih hcs fun d hd => hb d (.tail c hd)⟩
      intro d hd
      rcases List.mem_cons.mp ((insert_perm b cs).mem_iff.mp hd) with rfl | hd
      · exact of_decide_eq_true hlt
      · exact hc d hd
    · -- names differ, so `b` comes strictly before `c`, and before all that follow
      have hle : b.name ≤ c.name := List.not_lt.mp (by simpa using hlt)
      have hbc : b.name < c.name := by
        by_contra hn
        exact hb c (.head cs) (List.le_antisymm (List.not_lt.mp hn) hle)
      refine List.pairwise_cons.mpr ⟨?_, hs⟩
      intro d hd
      rcases List.mem_cons.mp hd with rfl | hd
      · exact hbc
      · exact List.lt_trans hbc (hc d hd)

theorem list_sorted {r : Registry} (h : (r.builtins.map Builtin.name).Nodup) :
    r.list.Pairwise (·.name < ·.name) := by
  obtain ⟨bs⟩ := r
  induction bs with
  | nil => exact .nil
  | cons b bs ih =>
    obtain ⟨hb, hbs⟩ := List.nodup_cons.mp h
    refine insert_sorted (ih hbs) fun c hc hn => hb ?_
    rw [← hn]
    exact List.mem_map_of_mem ((list_perm ⟨bs⟩).mem_iff.mp hc)

/-- The listing does not depend on the order in which the builtins are gone through. -/
theorem list_eq_of_perm {r : Registry} (h : (r.builtins.map Builtin.name).Nodup)
    {bs : List Builtin} (hp : bs.Perm r.builtins) : list ⟨bs⟩ = r.list := by
  have hs : (list ⟨bs⟩).Pairwise (·.name < ·.name) :=
    list_sorted ((hp.map Builtin.name).nodup_iff.mpr h)
  have hperm : (list ⟨bs⟩).Perm r.list := ((list_perm ⟨bs⟩).trans hp).trans (list_perm r).symm
  refine hperm.eq_of_pairwise ?_ hs (list_sorted h)
  intro a b _ _ hab hba
  exact absurd hba (List.lt_asymm hab)

/-! ### Operations -/

/-- **An operation on a registry.** -/
inductive Operation where
  | register (b : Option Builtin)
  | unregister (name : Text)
  | get (name : Text)
  | list
  | call (x : Context) (name : Text) (args : List Value) (c : Console)

/-- What an operation gives back. -/
inductive Answer where
  | done (r : Except Error Unit)
  | builtin (r : Except Error Builtin)
  | builtins (bs : List Builtin)
  | reply (r : Reply)

/-- Performs an operation. -/
def step (r : Registry) : Operation → Answer × Registry
  | .register b => (.done (r.register b).1, (r.register b).2)
  | .unregister n => (.done (r.unregister n).1, (r.unregister n).2)
  | .get n => (.builtin (r.get n), r)
  | .list => (.builtins r.list, r)
  | .call x n args c => (.reply (r.call x n args c), r)

/-- The registry after operations, one after the other. -/
def run (r : Registry) (ops : List Operation) : Registry := ops.foldl (fun r o => (r.step o).2) r

@[simp] theorem run_concat (r : Registry) (ops : List Operation) (o : Operation) :
    r.run (ops ++ [o]) = ((r.run ops).step o).2 := by
  simp [run]

/-- **What an operation does on a partial map from names to builtins**: what it answers, and the
map that it leaves. -/
inductive Acts (m : Text → Option Builtin) : Operation → Answer → (Text → Option Builtin) → Prop
  | registered {b : Builtin} : b.Valid → m b.name = none →
      Acts m (.register (some b)) (.done (.ok ())) (Function.update m b.name (some b))
  | missing : Acts m (.register none) (.done (.error (.invalidBuiltin .missing))) m
  | invalid {b : Builtin} {f : BuiltinFault} : ¬ b.Valid → b.fault? = some f →
      Acts m (.register (some b)) (.done (.error (.invalidBuiltin f))) m
  | duplicate {b c : Builtin} : b.Valid → m b.name = some c →
      Acts m (.register (some b)) (.done (.error (.alreadyRegistered b.name))) m
  | removed {n : Text} {b : Builtin} : m n = some b →
      Acts m (.unregister n) (.done (.ok ())) (Function.update m n none)
  | unknown {n : Text} : m n = none → Acts m (.unregister n) (.done (.error (.notFound n))) m
  | found {n : Text} {b : Builtin} : m n = some b → Acts m (.get n) (.builtin (.ok b)) m
  | missed {n : Text} : m n = none → Acts m (.get n) (.builtin (.error (.notFound n))) m
  | listed {bs : List Builtin} : bs.Pairwise (·.name < ·.name) →
      (∀ b, b ∈ bs ↔ m b.name = some b) → Acts m .list (.builtins bs) m
  | called {x : Context} {n : Text} {args : List Value} {c : Console} {a : Reply} :
      Acts m (.call x n args c) (.reply a) m

theorem register_cases (r : Registry) (b : Builtin) :
    (∃ f, ¬ b.Valid ∧ b.fault? = some f ∧
      r.register (some b) = (.error (.invalidBuiltin f), r)) ∨
    (∃ c, b.Valid ∧ r.find? b.name = some c ∧
      r.register (some b) = (.error (.alreadyRegistered b.name), r)) ∨
    (b.Valid ∧ r.find? b.name = none ∧ r.register (some b) = (.ok (), ⟨r.builtins ++ [b]⟩)) := by
  cases hf : b.fault? with
  | some f =>
    have hv : ¬ b.Valid := fun hv => by simp [Builtin.fault?_eq_none.mpr hv] at hf
    exact .inl ⟨f, hv, rfl, by simp [register, hf]⟩
  | none =>
    have hv : b.Valid := Builtin.fault?_eq_none.mp hf
    cases hn : r.find? b.name with
    | some c => exact .inr (.inl ⟨c, hv, rfl, by simp [register, hf, hn]⟩)
    | none => exact .inr (.inr ⟨hv, rfl, by simp [register, hf, hn]⟩)

theorem unregister_cases (r : Registry) (n : Text) :
    (∃ b, r.find? n = some b ∧
      r.unregister n = (.ok (), ⟨r.builtins.filter (·.name != n)⟩)) ∨
    (r.find? n = none ∧ r.unregister n = (.error (.notFound n), r)) := by
  cases hn : r.find? n with
  | some b => exact .inl ⟨b, rfl, by simp [unregister, hn]⟩
  | none => exact .inr ⟨rfl, by simp [unregister, hn]⟩

/-- An operation adds a valid builtin under a new name, removes a name, or leaves the registry as it
was. -/
theorem step_cases (r : Registry) (o : Operation) :
    (∃ b, b.Valid ∧ r.find? b.name = none ∧ r.step o = (.done (.ok ()), ⟨r.builtins ++ [b]⟩)) ∨
    (∃ n, r.step o = (.done (.ok ()), ⟨r.builtins.filter (·.name != n)⟩)) ∨
    (r.step o).2 = r := by
  cases o with
  | register b =>
    cases b with
    | none => exact .inr (.inr rfl)
    | some b =>
      rcases r.register_cases b with ⟨f, -, -, e⟩ | ⟨c, -, -, e⟩ | ⟨hv, hn, e⟩
      · exact .inr (.inr (by rw [step, e]))
      · exact .inr (.inr (by rw [step, e]))
      · exact .inl ⟨b, hv, hn, by rw [step, e]⟩
  | unregister n =>
    rcases r.unregister_cases n with ⟨b, -, e⟩ | ⟨-, e⟩
    · exact .inr (.inl ⟨n, by rw [step, e]⟩)
    · exact .inr (.inr (by rw [step, e]))
  | get n => exact .inr (.inr rfl)
  | list => exact .inr (.inr rfl)
  | call x n args c => exact .inr (.inr rfl)

theorem WellFormed.step {r : Registry} (h : r.WellFormed) (o : Operation) :
    (r.step o).2.WellFormed := by
  rcases r.step_cases o with ⟨b, hv, hn, e⟩ | ⟨n, e⟩ | e
  · rw [e]
    exact h.push hv hn
  · rw [e]
    exact h.remove n
  · rw [e]
    exact h

theorem step_of_ne_ok {r : Registry} {o : Operation} (h : (r.step o).1 ≠ .done (.ok ())) :
    (r.step o).2 = r := by
  rcases r.step_cases o with ⟨b, -, -, e⟩ | ⟨n, e⟩ | e
  · exact absurd (by rw [e]) h
  · exact absurd (by rw [e]) h
  · exact e

theorem WellFormed.acts {r : Registry} (h : r.WellFormed) (o : Operation) :
    Acts r.find? o (r.step o).1 (r.step o).2.find? := by
  cases o with
  | register b =>
    cases b with
    | none => exact .missing
    | some b =>
      rcases r.register_cases b with ⟨f, hv, hf, e⟩ | ⟨c, hv, hn, e⟩ | ⟨hv, hn, e⟩ <;>
        simp only [Registry.step, e]
      · exact .invalid hv hf
      · exact .duplicate hv hn
      · rw [find?_push h hv hn]
        exact .registered hv hn
  | unregister n =>
    rcases r.unregister_cases n with ⟨b, hn, e⟩ | ⟨hn, e⟩ <;> simp only [Registry.step, e]
    · rw [find?_remove h n]
      exact .removed hn
    · exact .unknown hn
  | get n =>
    cases hn : r.find? n with
    | some b => simpa [Registry.step, Registry.get, hn] using Acts.found hn
    | none => simpa [Registry.step, Registry.get, hn] using Acts.missed hn
  | list =>
    refine .listed (list_sorted h.names) fun b => ?_
    rw [(list_perm r).mem_iff, h.find?_eq_some, and_iff_left rfl]
  | call x n args c => exact .called

/-! ### Runs -/

theorem wellFormed_run (ops : List Operation) : (empty.run ops).WellFormed := by
  induction ops using List.reverseRecOn with
  | nil => exact wellFormed_empty
  | append_singleton ops o ih =>
    rw [run_concat]
    exact ih.step o

/-- A builtin is found after an operation if the operation registered it, or if it was found before
and the operation does not remove its name. -/
theorem Acts.find?_eq_some {m m' : Text → Option Builtin} {o : Operation} {a : Answer}
    (h : Acts m o a m') (n : Text) (b : Builtin) :
    m' n = some b ↔ (o = .register (some b) ∧ b.name = n ∧ a = .done (.ok ())) ∨
      (m n = some b ∧ o ≠ .unregister n) := by
  cases h with
  | @registered c hv hn =>
    rw [Function.update_apply]
    split_ifs with he
    · subst he
      simp only [hn]
      grind
    · grind
  | @removed k c hk =>
    rw [Function.update_apply]
    grind
  | @unknown k hk => grind
  | _ => simp

/-- **The builtin under a name is the one of the last registration**: a builtin is found exactly if
some operation registered it with success, and no later one removes its name. -/
theorem find?_run {ops : List Operation} {n : Text} {b : Builtin} :
    (empty.run ops).find? n = some b ↔
      ∃ before after, ops = before ++ .register (some b) :: after ∧ b.name = n ∧
        ((empty.run before).step (.register (some b))).1 = .done (.ok ()) ∧
        .unregister n ∉ after := by
  induction ops using List.reverseRecOn with
  | nil => simp [run, empty, find?]
  | append_singleton ops o ih =>
    rw [run_concat, ((wellFormed_run ops).acts o).find?_eq_some, ih]
    constructor
    · rintro (⟨rfl, hn, ha⟩ | ⟨⟨before, after, rfl, hn, ha, hr⟩, ho⟩)
      · exact ⟨ops, [], rfl, hn, ha, by simp⟩
      · exact ⟨before, after ++ [o], by simp, hn, ha, by simp [hr, ho.symm]⟩
    · rintro ⟨before, after, he, hn, ha, hr⟩
      -- the registration is the last operation, or `o` stands after it
      rcases List.eq_nil_or_concat' after with rfl | ⟨after, o', rfl⟩
      · obtain ⟨rfl, ho⟩ := List.append_inj' he rfl
        obtain rfl : o = .register (some b) := by simpa using ho
        exact .inl ⟨rfl, hn, ha⟩
      · rw [← List.cons_append, ← List.append_assoc] at he
        obtain ⟨rfl, ho⟩ := List.append_inj' he rfl
        obtain rfl : o = o' := by simpa using ho
        simp only [List.mem_append, List.mem_singleton, not_or] at hr
        exact .inr ⟨⟨before, after, rfl, hn, ha, hr.1⟩, Ne.symm hr.2⟩

/-- **A registry is a partial map from names to builtins**, whatever operations have led to it: each
builtin is valid and under its own name, every operation acts as on the map, and changes nothing
unless it registers or removes with success.  What is found under a name is what was registered
last, and the listing does not depend on the order of the builtins. -/
theorem partial_map_over_runs (ops : List Operation) :
    let r := empty.run ops
    (∀ n b, r.find? n = some b → b.name = n ∧ b.Valid) ∧
    (∀ o, Acts r.find? o (r.step o).1 (r.step o).2.find?) ∧
    (∀ o, (r.step o).1 ≠ .done (.ok ()) → (r.step o).2 = r) ∧
    (∀ n b, r.find? n = some b ↔
      ∃ before after, ops = before ++ .register (some b) :: after ∧ b.name = n ∧
        ((empty.run before).step (.register (some b))).1 = .done (.ok ()) ∧
        .unregister n ∉ after) ∧
    ∀ bs : List Builtin, bs.Perm r.builtins → list ⟨bs⟩ = r.list := by
  have h := wellFormed_run ops
  refine ⟨?_, h.acts, fun o => step_of_ne_ok, fun n b => find?_run,
    fun bs => list_eq_of_perm h.names⟩
  intro n b hb
  obtain ⟨hm, hn⟩ := mem_of_find? hb
  exact ⟨hn, h.valid b hm⟩

end Registry

end Colloquy
