import Colloquy.Proofs.Json.Reading
import Colloquy.Proofs.Saying
import Mathlib.Logic.Function.Basic

/-!
# What a terminal shows

A terminal shows a printable byte in the cell under its cursor and moves on; a backspace moves the
cursor back and leaves the cells as they are.  Two lines are *alike* if their cursors stand in one
column and they agree on all cells before it; what stands from the cursor on will be written over.

The separator after the last element of a container is stepped back over, so it leaves the line
alike (`stepBack`).  Texts that lead from alike lines to alike lines look alike (`LooksLike`), and so
do texts that are put together of such texts; hence all that is said in the style of a terminal looks
like what is said plainly.
-/

namespace Colloquy

/-! ### Lines and cursors -/

/-- **A line of a terminal**: what its cells show, and the column of the cursor. -/
structure Line where
  cells : ℕ → UInt8
  column : ℕ

namespace Line

/-- A byte that a terminal shows. -/
def Printable (b : UInt8) : Prop := 0x20 ≤ b ∧ b ≤ 0x7e

instance : DecidablePred Printable := fun b => inferInstanceAs (Decidable (0x20 ≤ b ∧ b ≤ 0x7e))

theorem printable_of_all {t : Text} (h : t.all (Printable ·) = true) : ∀ b ∈ t, Printable b := by
  simpa using h

/-- **A byte arrives.**  A printable byte is shown in the cell under the cursor, and the cursor moves
on.  A backspace moves the cursor back, but not beyond the first column.  No other byte may
arrive. -/
def type? (l : Line) (b : UInt8) : Option Line :=
  if Printable b then some ⟨Function.update l.cells l.column b, l.column + 1⟩
  else if b = 8 then some ⟨l.cells, l.column - 1⟩
  else none

/-- **A text arrives**, byte after byte. -/
def feed? (l : Line) (t : Text) : Option Line := t.foldlM type? l

/-- **Lines that are alike** up to the cursor. -/
structure Alike (l m : Line) : Prop where
  column : l.column = m.column
  cells : ∀ j < l.column, l.cells j = m.cells j

variable {l m n : Line}

theorem Alike.trans (h : Alike l m) (h' : Alike m n) : Alike l n :=
  ⟨h.column.trans h'.column,
    fun j hj => (h.cells j hj).trans (h'.cells j (h.column ▸ hj))⟩

theorem Alike.type? (h : Alike l m) {b : UInt8} {l' : Line} (hl : l.type? b = some l') :
    ∃ m', m.type? b = some m' ∧ Alike l' m' := by
  obtain ⟨hcolumn, hcells⟩ := h
  unfold Line.type? at hl ⊢
  split_ifs at hl ⊢ with h1 h2
  · obtain rfl := Option.some.inj hl
    refine ⟨_, rfl, by simp [hcolumn], ?_⟩
    intro j hj
    dsimp only at hj ⊢
    by_cases hjc : j = l.column
    · rw [hjc, Function.update_self, hcolumn, Function.update_self]
    · have hlt : j < l.column := by omega
      rw [Function.update_of_ne hjc, Function.update_of_ne (hcolumn ▸ hjc), hcells j hlt]
  · obtain rfl := Option.some.inj hl
    refine ⟨_, rfl, by simp [hcolumn], ?_⟩
    intro j hj
    dsimp only at hj ⊢
    exact hcells j (by omega)

theorem feed?_append (l : Line) (t u : Text) :
    l.feed? (t ++ u) = (l.feed? t).bind fun m => m.feed? u := by
  simp [feed?, List.foldlM_append]

theorem Alike.feed? (h : Alike l m) {t : Text} {l' : Line} (hl : l.feed? t = some l') :
    ∃ m', m.feed? t = some m' ∧ Alike l' m' := by
  induction t generalizing l m with
  | nil =>
    obtain rfl := Option.some.inj hl
    exact ⟨m, rfl, h⟩
  | cons b t ih =>
    obtain ⟨l₁, hb, ht⟩ := Option.bind_eq_some_iff.mp hl
    obtain ⟨m₁, hm, h₁⟩ := h.type? hb
    obtain ⟨m', hm', h'⟩ := ih h₁ ht
    exact ⟨m', Option.bind_eq_some_iff.mpr ⟨m₁, hm, hm'⟩, h'⟩

theorem exists_feed? {t : Text} (h : ∀ b ∈ t, Printable b) (l : Line) : ∃ m, l.feed? t = some m := by
  induction t generalizing l with
  | nil => exact ⟨l, rfl⟩
  | cons b t ih =>
    obtain ⟨hb, ht⟩ := List.forall_mem_cons.mp h
    obtain ⟨m, hm⟩ := ih ht ⟨Function.update l.cells l.column b, l.column + 1⟩
    refine ⟨m, Option.bind_eq_some_iff.mpr ⟨_, ?_, hm⟩⟩
    rw [type?, if_pos hb]

/-- **Stepping back over a separator** leaves the line alike. -/
theorem stepBack (l : Line) : ∃ m, l.feed? (Value.separator ++ "\x08\x08") = some m ∧ Alike m l := by
  refine ⟨⟨Function.update (Function.update l.cells l.column 44) (l.column + 1) 32,
    l.column + 1 + 1 - 1 - 1⟩, rfl, ?_, ?_⟩
  · dsimp only
    omega
  · intro j hj
    dsimp only at hj ⊢
    rw [Function.update_of_ne (by omega), Function.update_of_ne (by omega)]

/-! ### Texts that look alike -/

/-- **Texts that look alike**, wherever they are written: they lead from alike lines to alike
lines. -/
def LooksLike (t u : Text) : Prop :=
  ∀ l m, Alike l m → ∃ l' m', l.feed? t = some l' ∧ m.feed? u = some m' ∧ Alike l' m'

theorem looksLike_self {t : Text} (h : ∀ b ∈ t, Printable b) : LooksLike t t := by
  intro l m hlm
  obtain ⟨l', hl⟩ := exists_feed? h l
  obtain ⟨m', hm, h'⟩ := hlm.feed? hl
  exact ⟨l', m', hl, hm, h'⟩

theorem LooksLike.append {t u t' u' : Text} (h : LooksLike t u) (h' : LooksLike t' u') :
    LooksLike (t ++ t') (u ++ u') := by
  intro l m hlm
  obtain ⟨l₁, m₁, hl, hm, h₁⟩ := h l m hlm
  obtain ⟨l₂, m₂, hl', hm', h₂⟩ := h' l₁ m₁ h₁
  exact ⟨l₂, m₂, by rw [feed?_append, hl]; exact hl', by rw [feed?_append, hm]; exact hm', h₂⟩

theorem LooksLike.flatten {ts us : List Text} (h : List.Forall₂ LooksLike ts us) :
    LooksLike ts.flatten us.flatten := by
  induction h with
  | nil => exact looksLike_self (by simp)
  | cons h _ ih => exact h.append ih

/-- What is stepped back over looks like nothing. -/
theorem looksLike_nil : LooksLike (Value.separator ++ "\x08\x08") [] := by
  intro l m hlm
  obtain ⟨l', hl, h'⟩ := l.stepBack
  exact ⟨l', m, hl, rfl, h'.trans hlm⟩

/-- In the style of a terminal, a separator follows the last element and is stepped back over. -/
theorem enclose_terminal {ts : List Text} (h : ts ≠ []) : Value.enclose .terminal ts =
    "[" ++ Text.join Value.separator ts ++ (Value.separator ++ "\x08\x08") ++ "]" := by
  have hjoin : ts.flatMap (· ++ Value.separator) =
      Text.join Value.separator ts ++ Value.separator := by
    induction ts with
    | nil => exact absurd rfl h
    | cons t ts ih =>
      cases ts with
      | nil => simp [Text.join]
      | cons u us =>
        rw [List.flatMap_cons, ih (List.cons_ne_nil u us), Text.join, Text.join,
          List.intercalate_cons_cons, List.append_assoc, List.append_assoc, List.append_assoc]
  rw [Value.enclose, hjoin]
  simp only [List.append_assoc]

theorem printable_join {ts : List Text} (h : ∀ t ∈ ts, ∀ b ∈ t, Printable b) :
    ∀ b ∈ Text.join Value.separator ts, Printable b := by
  induction ts with
  | nil => simp [Text.join]
  | cons t ts ih =>
    obtain ⟨ht, hts⟩ := List.forall_mem_cons.mp h
    cases ts with
    | nil => simpa [Text.join] using ht
    | cons u us =>
      have hsep : ∀ b ∈ Value.separator, Printable b := printable_of_all (by decide)
      rw [Text.join, List.intercalate_cons_cons]
      intro b hb
      rcases List.mem_append.mp hb with hb | hb
      · rcases List.mem_append.mp hb with hb | hb
        · exact ht b hb
        · exact hsep b hb
      · exact ih hts b hb

/-- **Both ways to enclose elements look alike**, if there is an element. -/
theorem looksLike_enclose {ts : List Text} (hne : ts ≠ []) (h : ∀ t ∈ ts, ∀ b ∈ t, Printable b) :
    LooksLike (Value.enclose .terminal ts) (Value.enclose .plain ts) := by
  have hopen : ∀ b ∈ Text.ofString "[", Printable b := printable_of_all (by decide)
  have hclose : ∀ b ∈ Text.ofString "]", Printable b := printable_of_all (by decide)
  have hinner := (looksLike_self hopen).append (looksLike_self (printable_join h))
  have hall := (hinner.append looksLike_nil).append (looksLike_self hclose)
  rw [enclose_terminal hne, Value.enclose]
  simpa only [List.append_nil] using hall

end Line

/-! ### Values -/

namespace Binary

open Line

variable {f : Format}

theorem printable_of_isNumeric {b : UInt8} (h : Json.isNumeric b = true) : Printable b := by
  simp only [Json.isNumeric, Bool.or_eq_true, Bool.and_eq_true, decide_eq_true_eq, beq_iff_eq] at h
  rcases h with ((((⟨h1, h2⟩ | rfl) | rfl) | rfl) | rfl) | rfl
  · have hlow : (0x20 : UInt8) ≤ 48 := by decide
    have hhigh : (57 : UInt8) ≤ 0x7e := by decide
    exact ⟨UInt8.le_trans hlow h1, UInt8.le_trans h2 hhigh⟩
  all_goals decide

theorem printable_text (x : Binary f) : ∀ b ∈ x.text, Printable b := by
  have hnan : ∀ b ∈ Text.ofString "nan", Printable b := printable_of_all (by decide)
  have hinf : ∀ b ∈ Text.ofString "inf", Printable b := printable_of_all (by decide)
  have hneg : ∀ b ∈ Text.ofString "-inf", Printable b := printable_of_all (by decide)
  cases x with
  | nan => exact hnan
  | infinite s =>
    cases s with
    | false => exact hinf
    | true => exact hneg
  | finite s c =>
    have hdigits : ∀ b ∈ (if c.val = 0 then Text.ofString "0" else (sixDigits c).text),
        Printable b := by
      split_ifs with h0
      · exact printable_of_all (by decide)
      · have hnumeric : Json.Numeric (sixDigits c).text :=
          Json.numeric_text (normal_sixDigits (Format.units_pos h0))
        exact fun b hb => printable_of_isNumeric (hnumeric.bytes b hb)
    have hsign : ∀ b ∈ Text.ofString "-", Printable b := printable_of_all (by decide)
    unfold text write
    dsimp only
    cases s with
    | false => exact hdigits
    | true =>
      intro b hb
      rcases List.mem_append.mp hb with hb | hb
      · exact hsign b hb
      · exact hdigits b hb

end Binary

namespace Value

open Line

/-- **A value that looks the same in both styles**: its strings are printable, and if it is a
container, it is not empty. -/
structure Presentable (v : Value) : Prop where
  string : ∀ t, v = .str t → ∀ b ∈ t, Printable b
  element : ∀ k, v.container? = some k → k.elements ≠ [] ∧
    ∀ t, .str t ∈ k.elements → ∀ b ∈ t, Printable b

theorem Shows.printable {v : Value} {t : Text} (h : Shows v t)
    (hv : ∀ u, v = .str u → ∀ b ∈ u, Printable b) : ∀ b ∈ t, Printable b := by
  cases h with
  | scalar b x =>
    cases b with
    | double => exact Binary.printable_text x
    | single => exact Binary.printable_text x
    | text => exact hv x rfl
    | truth => cases x <;> exact printable_of_all (by decide)

theorem printable_elements {vs : List Value} {ts : List Text} (h : List.Forall₂ Shows vs ts)
    (hvs : ∀ u, .str u ∈ vs → ∀ b ∈ u, Printable b) : ∀ t ∈ ts, ∀ b ∈ t, Printable b := by
  induction h with
  | nil => simp
  | cons hv _ ih =>
    refine List.forall_mem_cons.mpr ⟨hv.printable ?_, ih ?_⟩
    · rintro u rfl
      exact hvs u (by simp)
    · intro u hu
      exact hvs u (by simp [hu])

theorem Renders.looksLike {v : Value} {t u : Text} (ht : Renders .terminal v t)
    (hu : Renders .plain v u) (hv : v.Presentable) : LooksLike t u := by
  cases ht with
  | scalar h =>
    have hnone := container?_eq_none_of_isBase (isBase_iff.mpr ⟨t, h⟩)
    cases hu with
    | scalar h' =>
      obtain rfl : t = u := by
        rw [← renderScalar?_eq_some] at h h'
        exact Option.some.inj (h.symm.trans h')
      exact looksLike_self (h.printable hv.string)
    | container hk => simp [hnone] at hk
  | @container k ts hk h =>
    cases hu with
    | scalar h' => simp [container?_eq_none_of_isBase (isBase_iff.mpr ⟨u, h'⟩)] at hk
    | @container k' us hk' h' =>
      obtain rfl : k = k' := Option.some.inj (hk.symm.trans hk')
      obtain rfl : ts = us := by
        rw [← renderElements_eq_ok] at h h'
        exact Except.ok.inj (h.symm.trans h')
      obtain ⟨hne, hstring⟩ := hv.element k hk
      refine looksLike_enclose ?_ ?_
      · rintro rfl
        exact hne (List.forall₂_nil_right_iff.mp h)
      · exact printable_elements h hstring

theorem looksLike_renderings {vs : List Value} (hvs : ∀ v ∈ vs, v.Presentable) {ts us : List Text}
    (hts : List.Forall₂ (Renders .terminal) vs ts) (hus : List.Forall₂ (Renders .plain) vs us) :
    LooksLike ts.flatten us.flatten := by
  refine LooksLike.flatten ?_
  induction vs generalizing ts us with
  | nil =>
    cases hts
    cases hus
    exact .nil
  | cons v vs ih =>
    obtain ⟨hv, hvs⟩ := List.forall_mem_cons.mp hvs
    obtain ⟨t, ts, ht, hts', rfl⟩ := List.forall₂_cons_left_iff.mp hts
    obtain ⟨u, us, hu, hus', rfl⟩ := List.forall₂_cons_left_iff.mp hus
    exact .cons (ht.looksLike hu hv) (ih hvs hts' hus')

end Value

namespace Printer

open Line Value

/-- **Both styles look the same on a terminal.**  A printer fails alike in both styles, before
anything is written, or it makes one write and the same warnings in both, and the write has the same
result.  If no container that is rendered is empty and all strings are printable, the two texts that
are written lead from any line to lines that are alike. -/
theorem say_alike_on_terminal (strict : Bool) (vs : List Value) (c : Console) :
    (∃ e, say ⟨.terminal, strict⟩ vs c = (.error e, c) ∧ say ⟨.plain, strict⟩ vs c = (.error e, c)) ∨
    ∃ o ws t u,
      say ⟨.terminal, strict⟩ vs c =
        (o, { c with writes := c.writes ++ [t], entries := c.entries ++ ws }) ∧
      say ⟨.plain, strict⟩ vs c =
        (o, { c with writes := c.writes ++ [u], entries := c.entries ++ ws }) ∧
      ((∀ v ∈ vs, v.Renderable → v.Presentable) →
        ∀ l : Line, ∃ m n, l.feed? t = some m ∧ l.feed? u = some n ∧ Alike m n) := by
  rcases compose_styles strict vs with ⟨e, he⟩ | ⟨ws, hws⟩
  · exact .inl ⟨e, by rw [say, he], by rw [say, he]⟩
  · obtain ⟨ts, hts, hterminal⟩ := hws .terminal
    obtain ⟨us, hus, hplain⟩ := hws .plain
    refine .inr ⟨_, ws, ts.flatten, us.flatten, by rw [say, hterminal]; rfl,
      by rw [say, hplain]; rfl, ?_⟩
    intro hvs l
    have hpresentable : ∀ v ∈ vs.filter (·.Renderable), v.Presentable := by
      intro v hv
      obtain ⟨hmem, hr⟩ := List.mem_filter.mp hv
      exact hvs v hmem (by simpa using hr)
    exact looksLike_renderings hpresentable hts hus l l ⟨rfl, fun _ _ => rfl⟩

end Printer

end Colloquy
