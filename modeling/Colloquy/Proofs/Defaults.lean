import Colloquy.Proofs.Calling

/-!
# Registering the builtins of every program

Builtins are registered in order, up to the first whose name is live.  Those before it stay
registered, so what is left behind depends on the names that were live at the start: `Adds` says
that a registry has come to hold given builtins besides its own, and nothing else.

* `Addable.push`: a registration with success leaves the other builtins as fit for registration as
  they were.
* `Addable.registerAll_append`: so builtins under new names are registered whatever follows them.
* `registerAll_cases`: all builtins are added, or those before the first with a live name.
-/

namespace Colloquy

namespace Builtin

theorem names_defaults (p : Printer) :
    (defaults p).map name = ["say", "ask", "index", "len"] := rfl

theorem valid_of_mem_defaults {p : Printer} {b : Builtin} (h : b ∈ defaults p) : b.Valid := by
  obtain ⟨d, rfl⟩ := Default.exists_of_mem_defaults h
  cases d <;> exact fault?_eq_none.mp rfl

end Builtin

namespace Registry

/-- A builtin is registered under the name `n`. -/
def Live (r : Registry) (n : Text) : Prop := ∃ b, r.find? n = some b

/-- **`bs` are added to a registry, and nothing else.**  The registry that is left is the one to
which their registrations lead, one after the other, so it is one that operations lead to if the
first is. -/
structure Adds (r : Registry) (bs : List Builtin) (r' : Registry) : Prop where
  run : r' = r.run (bs.map fun b => .register (some b))
  found : ∀ n b, r'.find? n = some b ↔ r.find? n = some b ∨ (b ∈ bs ∧ b.name = n)
  listed : r'.list.Perm (r.list ++ bs)

/-- The refusal of a builtin whose name is live. -/
def taken (n : Text) : Error :=
  .within ("failed to register builtin " ++ n.quoted) (.alreadyRegistered n)

section
variable {r r' : Registry} {b : Builtin} {bs rest : List Builtin} {n : Text}

theorem not_live : ¬ r.Live n ↔ r.find? n = none := by
  rw [Live, ← Option.isSome_iff_exists, Option.not_isSome_iff_eq_none]

theorem Adds.keeps (h : r.Adds bs r') (hb : r.find? n = some b) : r'.find? n = some b :=
  (h.found n b).mpr (.inl hb)

theorem Adds.live (h : r.Adds bs r') (hn : r.Live n) : r'.Live n := hn.imp fun _ => h.keeps

theorem Adds.live_of_mem (h : r.Adds bs r') (hb : b ∈ bs) : r'.Live b.name :=
  ⟨b, (h.found b.name b).mpr (.inr ⟨hb, rfl⟩)⟩

theorem find?_append (r : Registry) (bs : List Builtin) (n : Text) :
    find? ⟨r.builtins ++ bs⟩ n = (r.find? n).or (find? ⟨bs⟩ n) :=
  List.find?_append

/-! ### Builtins under new names -/

/-- Valid builtins under names that differ and are not live. -/
structure Addable (r : Registry) (bs : List Builtin) : Prop where
  valid : ∀ b ∈ bs, b.Valid
  names : (bs.map Builtin.name).Nodup
  fresh : ∀ b ∈ bs, ¬ r.Live b.name

theorem Addable.register_head (h : r.Addable (b :: bs)) :
    r.register (some b) = (.ok (), ⟨r.builtins ++ [b]⟩) := by
  have hv := h.valid b (.head bs)
  have hn := not_live.mp (h.fresh b (.head bs))
  rcases r.register_cases b with ⟨f, hnv, -, -⟩ | ⟨c, -, hc, -⟩ | ⟨-, -, e⟩
  · exact absurd hv hnv
  · rw [hn] at hc
    cases hc
  · exact e

/-- The name of the builtin that was just registered is none of the others. -/
theorem Addable.push (h : r.Addable (b :: bs)) : Addable ⟨r.builtins ++ [b]⟩ bs := by
  obtain ⟨hb, hbs⟩ := List.nodup_cons.mp h.names
  refine ⟨fun c hc => h.valid c (.tail b hc), hbs, fun c hc => ?_⟩
  have hold := not_live.mp (h.fresh c (.tail b hc))
  have hne : b.name ≠ c.name := fun he => hb (he ▸ List.mem_map_of_mem hc)
  rw [not_live, find?_append, hold, Option.none_or, find?_eq_none]
  simpa using hne

theorem Addable.registerAll_append (h : r.Addable bs) (rest : List Builtin) :
    r.registerAll (bs ++ rest) = registerAll ⟨r.builtins ++ bs⟩ rest := by
  induction bs generalizing r with
  | nil => rw [List.nil_append, List.append_nil]
  | cons b bs ih =>
    rw [List.cons_append, registerAll, h.register_head]
    simp only [ih h.push, List.append_assoc, List.singleton_append]

theorem Addable.run_registrations (h : r.Addable bs) :
    r.run (bs.map fun b => .register (some b)) = ⟨r.builtins ++ bs⟩ := by
  induction bs generalizing r with
  | nil => simp [run]
  | cons b bs ih =>
    have hstep : (r.step (.register (some b))).2 = ⟨r.builtins ++ [b]⟩ := by
      rw [step, h.register_head]
    rw [List.map_cons, run, List.foldl_cons, hstep, ← run, ih h.push, List.append_assoc,
      List.singleton_append]

theorem Addable.adds (h : r.Addable bs) : r.Adds bs ⟨r.builtins ++ bs⟩ := by
  refine ⟨h.run_registrations.symm, fun n b => ?_, ?_⟩
  · have hbs : WellFormed ⟨bs⟩ := ⟨h.valid, h.names⟩
    rw [find?_append, Option.or_eq_some_iff, hbs.find?_eq_some]
    refine or_congr_right (and_iff_right_of_imp ?_)
    rintro ⟨hb, rfl⟩
    exact not_live.mp (h.fresh b hb)
  · exact (list_perm _).trans ((list_perm r).symm.append_right bs)

/-! ### Up to the first live name -/

theorem registerAll_of_live (hv : b.Valid) (hl : r.Live b.name) :
    r.registerAll (b :: rest) = (.error (taken b.name), r) := by
  obtain ⟨c, hc⟩ := hl
  rcases r.register_cases b with ⟨f, hnv, -, -⟩ | ⟨_, -, -, e⟩ | ⟨-, hn, -⟩
  · exact absurd hv hnv
  · simp only [registerAll, e, taken]
  · rw [hc] at hn
    cases hn

/-- **Builtins are registered up to the first whose name is live**, if there is one. -/
theorem registerAll_cases (r : Registry) (hv : ∀ b ∈ bs, b.Valid)
    (hn : (bs.map Builtin.name).Nodup) :
    ((∀ b ∈ bs, ¬ r.Live b.name) ∧ ∃ r', r.registerAll bs = (.ok (), r') ∧ r.Adds bs r') ∨
    ∃ before b after, bs = before ++ b :: after ∧ (∀ c ∈ before, ¬ r.Live c.name) ∧
      r.Live b.name ∧ ∃ r', r.registerAll bs = (.error (taken b.name), r') ∧ r.Adds before r' := by
  cases hf : bs.find? fun b => (r.find? b.name).isSome with
  | none =>
    have hfresh : ∀ b ∈ bs, ¬ r.Live b.name := by simpa [not_live] using hf
    have h : r.Addable bs := ⟨hv, hn, hfresh⟩
    refine .inl ⟨hfresh, _, ?_, h.adds⟩
    rw [← List.append_nil bs, h.registerAll_append, List.append_nil, registerAll]
  | some b =>
    obtain ⟨hb, before, after, rfl, hbefore⟩ := List.find?_eq_some_iff_append.mp hf
    have hfresh : ∀ c ∈ before, ¬ r.Live c.name := by simpa [not_live] using hbefore
    rw [List.map_append, List.nodup_append] at hn
    have h : r.Addable before := ⟨fun c hc => hv c (List.mem_append_left _ hc), hn.1, hfresh⟩
    have hlive : r.Live b.name := Option.isSome_iff_exists.mp hb
    refine .inr ⟨before, b, after, rfl, hfresh, hlive, _, ?_, h.adds⟩
    rw [h.registerAll_append, registerAll_of_live (hv b (by simp)) (h.adds.live hlive)]

/-- After the attempt the first of the names is live, whether or not it was before. -/
theorem live_head_registerAll (r : Registry) (hv : ∀ c ∈ b :: bs, c.Valid)
    (hn : ((b :: bs).map Builtin.name).Nodup) : (r.registerAll (b :: bs)).2.Live b.name := by
  rcases r.registerAll_cases hv hn with
    ⟨-, r', e, hadds⟩ | ⟨_ | ⟨d, before⟩, c, after, hbs, -, hlive, r', e, hadds⟩
  · rw [e]
    exact hadds.live_of_mem (.head bs)
  · -- the first name was live already
    obtain ⟨rfl, -⟩ := List.cons.inj hbs
    rw [e]
    exact hadds.live hlive
  · obtain ⟨rfl, -⟩ := List.cons.inj hbs
    rw [e]
    exact hadds.live_of_mem (.head before)

end

/-- **The builtins of every program are registered up to the first whose name is live**, on any
registry, whatever operations have led to it.  The registration succeeds exactly if none of their
names is live, and then adds them all.  Otherwise it is refused for the first live name, and adds
those before it.  What was found before is found after, and a second registration is refused for
the first name of all, and changes nothing. -/
theorem registerDefaults_up_to_live (r : Registry) (p : Printer) :
    let outcome := (r.registerDefaults p).1
    let r' := (r.registerDefaults p).2
    (Builtin.defaults p).map Builtin.name = ["say", "ask", "index", "len"] ∧
    (outcome = .ok () ↔ ∀ b ∈ Builtin.defaults p, ¬ r.Live b.name) ∧
    (outcome = .ok () → r.Adds (Builtin.defaults p) r') ∧
    (∀ e, outcome = .error e → ∃ before b after, Builtin.defaults p = before ++ b :: after ∧
      (∀ c ∈ before, ¬ r.Live c.name) ∧ r.Live b.name ∧ e = taken b.name ∧ r.Adds before r') ∧
    (∀ n b, r.find? n = some b → r'.find? n = some b) ∧
    ∀ q, r'.registerDefaults q = (.error (taken "say"), r') := by
  intro outcome r'
  have hv (q : Printer) : ∀ b ∈ Builtin.defaults q, b.Valid := fun _ => Builtin.valid_of_mem_defaults
  have hn (q : Printer) : ((Builtin.defaults q).map Builtin.name).Nodup := by
    rw [Builtin.names_defaults]
    decide
  have hlive : r'.Live "say" := r.live_head_registerAll (hv p) (hn p)
  have hagain (q : Printer) : r'.registerDefaults q = (.error (taken "say"), r') :=
    registerAll_of_live (hv q _ (.head _)) hlive
  rcases r.registerAll_cases (hv p) (hn p) with
    ⟨hfresh, s, e, hadds⟩ | ⟨before, b, after, hbs, hfresh, hb, s, e, hadds⟩
  · have hout : outcome = .ok () := congrArg Prod.fst e
    obtain rfl : r' = s := congrArg Prod.snd e
    refine ⟨rfl, iff_of_true hout hfresh, fun _ => hadds, fun e he => ?_,
      fun _ _ => hadds.keeps, hagain⟩
    rw [hout] at he
    cases he
  · have hout : outcome = .error (taken b.name) := congrArg Prod.fst e
    obtain rfl : r' = s := congrArg Prod.snd e
    have hfail : outcome ≠ .ok () := by simp [hout]
    refine ⟨rfl, iff_of_false hfail fun h => h b (by simp [hbs]) hb, fun h => absurd h hfail,
      fun e he => ?_, fun _ _ => hadds.keeps, hagain⟩
    obtain rfl : taken b.name = e := Except.error.inj (hout.symm.trans he)
    exact ⟨before, b, after, hbs, hfresh, hb, rfl, hadds⟩

-- where only `index` is live, the two before it are left behind
example : (registerDefaults ⟨[Builtin.index]⟩ ⟨.plain, false⟩).2.builtins.map Builtin.name =
    ["index", "say", "ask"] := rfl

end Registry

end Colloquy
