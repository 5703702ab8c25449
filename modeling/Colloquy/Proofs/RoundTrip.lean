import Colloquy.Proofs.Json.Reading
import Colloquy.Proofs.Literal

/-!
# Renderings as literals

The rendering of a value can be given as a literal.  For truth values, for zeros and for numbers of
the normal range, and for containers of them, the literal has the same rendering again
(`Value.parse_format`), although the number that is read is not the number that was rendered: its
six digits are.  A queue or a stack comes back as an array of its elements in the order in which
they are shown.
-/

namespace Colloquy

open Json (Reads)

namespace Base

/-- **A scalar whose rendering tells what it is**: a truth value, a finite single, or a double that
is zero or normal. -/
def Legible : (b : Base) → b.Carrier → Prop
  | double, x => ∃ s c, x = .finite s c ∧ (c.val = 0 ∨ Format.double.leading ≤ c.val)
  | single, x => ∃ s c, x = .finite s c
  | text, _ => False
  | truth, _ => True

theorem exists_reads_number {b : Base} (hb : b.kind = .num) {x : b.Carrier} (h : b.Legible x) :
    ∃ y : Double, Reads (b.render x) (.number y) ∧ y.text = b.render x := by
  cases b with
  | double =>
    obtain ⟨s, c, rfl, hc⟩ := h
    obtain ⟨c', hreads, htext⟩ := Json.reads_text (hc.imp_right (Format.regular_double · c.isLt)) s
    exact ⟨_, hreads, htext⟩
  | single =>
    obtain ⟨s, c, rfl⟩ := h
    have hc : c.val = 0 ∨ Format.single.Regular c :=
      or_iff_not_imp_left.mpr (Format.regular_single · c.isLt)
    obtain ⟨c', hreads, htext⟩ := Json.reads_text hc s
    exact ⟨_, hreads, htext⟩
  | text => cases hb
  | truth => cases hb

theorem exists_reads_numbers {b : Base} (hb : b.kind = .num) {xs : List b.Carrier}
    (h : ∀ x ∈ xs, b.Legible x) :
    ∃ ys : List Double, List.Forall₂ Reads (xs.map b.render) (ys.map .number) ∧
      ys.map Binary.text = xs.map b.render := by
  induction xs with
  | nil => exact ⟨[], .nil, rfl⟩
  | cons x xs ih =>
    rw [List.forall_mem_cons] at h
    obtain ⟨y, hreads, htext⟩ := exists_reads_number hb h.1
    obtain ⟨ys, hys, hmap⟩ := ih h.2
    exact ⟨y :: ys, .cons hreads hys, by rw [List.map_cons, List.map_cons, htext, hmap]⟩

theorem reads_truths (bs : List Bool) :
    List.Forall₂ Reads (bs.map Text.ofBool) (bs.map .bool) := by
  induction bs with
  | nil => exact .nil
  | cons b bs ih => exact .cons (Json.reads_bool b) ih

end Base

namespace Literal

theorem split_of_reads {t : Text} {j : Json} (h : Reads t j) : split t = (.array, t) := by
  obtain ⟨b, r, rfl, -, -⟩ := h.head
  have hvalue := h.value 0 0 Json.ends_nil
  unfold split
  split
  · next u hu => rw [hu] at hvalue; cases hvalue
  · next u hu => rw [hu] at hvalue; cases hvalue
  · rfl

/-- **The literal for a scalar**: a scalar of the same kind with the same rendering. -/
theorem parse_render {b : Base} {x : b.Carrier} (h : b.Legible x) :
    ∃ (b' : Base) (y : b'.Carrier), b'.kind = b.kind ∧ b'.render y = b.render x ∧
      parse (b.render x) = .ok (.scalar ⟨none, b'⟩ y) := by
  have hparse {t : Text} {j : Json} {v : Value} (hj : Reads t j)
      (hv : Denotes t .array t (some j) v) : parse t = .ok v := by
    rw [parse_eq_ok, split_of_reads hj, hj.read?]
    exact hv
  have hnumber (hb : b.kind = .num) : ∃ y : Double, Base.double.render y = b.render x ∧
      parse (b.render x) = .ok (.num y) := by
    obtain ⟨y, hreads, htext⟩ := Base.exists_reads_number hb h
    exact ⟨y, htext, hparse hreads (.number rfl y)⟩
  cases b with
  | double =>
    obtain ⟨y, htext, hy⟩ := hnumber rfl
    exact ⟨.double, y, rfl, htext, hy⟩
  | single =>
    obtain ⟨y, htext, hy⟩ := hnumber rfl
    exact ⟨.double, y, rfl, htext, hy⟩
  | text => cases h
  | truth => exact ⟨.truth, x, rfl, rfl, hparse (Json.reads_bool x) (.bool rfl x)⟩

theorem exists_holds {b : Base} {xs : List b.Carrier} (h : ∀ x ∈ xs, b.Legible x) :
    ∃ (js : List Json) (b' : Base) (ys : List b'.Carrier),
      List.Forall₂ Reads (xs.map b.render) js ∧
      Holds .array js (.slice none (.scalar ⟨none, b'⟩) (some ys)) ∧
      ys.map b'.render = xs.map b.render ∧ (xs ≠ [] → b'.kind = b.kind) := by
  by_cases hne : xs = []
  · subst hne
    have hempty : Holds .array (([] : List Double).map .number) _ := .numbers .array
    exact ⟨[], .double, [], .nil, hempty, rfl, fun hn => absurd rfl hn⟩
  have hnumbers (hb : b.kind = .num) : ∃ (js : List Json) (ys : List Double),
      List.Forall₂ Reads (xs.map b.render) js ∧
      Holds .array js (.slice none (.scalar ⟨none, .double⟩) (some ys)) ∧
      ys.map Base.double.render = xs.map b.render := by
    obtain ⟨ys, hreads, htext⟩ := Base.exists_reads_numbers hb h
    exact ⟨_, ys, hreads, .numbers .array, htext⟩
  cases b with
  | double =>
    obtain ⟨js, ys, hreads, hholds, htext⟩ := hnumbers rfl
    exact ⟨js, .double, ys, hreads, hholds, htext, fun _ => rfl⟩
  | single =>
    obtain ⟨js, ys, hreads, hholds, htext⟩ := hnumbers rfl
    exact ⟨js, .double, ys, hreads, hholds, htext, fun _ => rfl⟩
  | text =>
    obtain ⟨x, hx⟩ := List.exists_mem_of_ne_nil xs hne
    cases h x hx
  | truth => exact ⟨_, .truth, xs, Base.reads_truths xs, .bools hne .array, rfl, fun _ => rfl⟩

/-- **The literal for a container**: an array with elements of the same renderings. -/
theorem parse_enclose {b : Base} {xs : List b.Carrier} (h : ∀ x ∈ xs, b.Legible x) :
    ∃ (b' : Base) (ys : List b'.Carrier), ys.map b'.render = xs.map b.render ∧
      (xs ≠ [] → b'.kind = b.kind) ∧
      parse (Value.enclose .plain (xs.map b.render)) =
        .ok (.slice none (.scalar ⟨none, b'⟩) (some ys)) := by
  obtain ⟨js, b', ys, hreads, hholds, htext, hkind⟩ := exists_holds h
  have hread := Json.read?_array hreads
  refine ⟨b', ys, htext, hkind, ?_⟩
  have henclose : Value.enclose .plain (xs.map b.render) =
      91 :: (Text.join ", " (xs.map b.render) ++ [93]) := rfl
  have hsplit (t : Text) : split (91 :: t) = (.array, 91 :: t) := rfl
  rw [parse_eq_ok, henclose, hsplit, hread]
  exact .container hholds

end Literal

namespace Value

/-- **A value whose rendering tells what it is**: a legible scalar, or a container of legible scalars
of one type. -/
inductive Legible : Value → Prop
  | scalar {b : Base} {x : b.Carrier} (h : b.Legible x) : Legible (scalar ⟨none, b⟩ x)
  | slice {b : Base} {xs : Option (List b.Carrier)} (o : Option Text)
      (h : ∀ x ∈ xs.getD [], b.Legible x) : Legible (slice o (.scalar ⟨none, b⟩) xs)
  | array {b : Base} {xs : Option (List b.Carrier)} (o : Option Text)
      (h : ∀ x ∈ xs.getD [], b.Legible x) : Legible (array o ⟨none, b⟩ xs)
  | queue {b : Base} {q : Option (Queue b.Carrier)}
      (h : ∀ x ∈ (q.map Queue.elements).getD [], b.Legible x) : Legible (queue ⟨none, b⟩ q)
  | stack {b : Base} {s : Option (Stack b.Carrier)}
      (h : ∀ x ∈ (s.map Stack.elements).getD [], b.Legible x) : Legible (stack ⟨none, b⟩ s)

theorem Legible.cases_container {v : Value} (h : v.Legible) :
    (∃ (b : Base) (x : b.Carrier), v = .scalar ⟨none, b⟩ x ∧ b.Legible x) ∨
    ∃ (k : Container) (b : Base) (xs : List b.Carrier), v.container? = some k ∧
      k.elements = xs.map (.scalar ⟨none, b⟩) ∧ ∀ x ∈ xs, b.Legible x := by
  cases h with
  | scalar h => exact .inl ⟨_, _, rfl, h⟩
  | slice o h | array o h => exact .inr ⟨_, _, _, rfl, rfl, h⟩
  | queue h | stack h => exact .inr ⟨_, _, _, rfl, rfl, h⟩

theorem forall₂_of_render_eq {b b' : Base} {xs : List b.Carrier} {ys : List b'.Carrier}
    (h : ys.map b'.render = xs.map b.render) (hkind : xs ≠ [] → b'.kind = b.kind) :
    List.Forall₂ (fun e y => e.kind = b'.kind ∧ Shows e (b'.render y))
      (xs.map (.scalar ⟨none, b⟩)) ys := by
  rw [List.forall₂_map_left_iff]
  by_cases hne : xs = []
  · subst hne
    rw [List.map_eq_nil_iff.mp h]
    exact .nil
  · have heq : List.Forall₂ Eq (xs.map b.render) (ys.map b'.render) := by
      rw [h, List.forall₂_eq_eq_eq]
    have hrender := List.forall₂_map_right_iff.mp (List.forall₂_map_left_iff.mp heq)
    refine hrender.imp fun x y hxy => ⟨(hkind hne).symm, ?_⟩
    rw [← hxy]
    exact .scalar b x

/-- **How a value comes back**: a scalar as a scalar of the same kind, and a container as an array
whose items are rendered like its elements, in the order in which they are shown. -/
def ComesBack (v w : Value) : Prop :=
  match v.container? with
  | none => w.IsBase ∧ w.kind = v.kind
  | some k => ∃ (b : Base) (ys : List b.Carrier), w = .slice none (.scalar ⟨none, b⟩) (some ys) ∧
      List.Forall₂ (fun e y => e.kind = b.kind ∧ Shows e (b.render y)) k.elements ys

/-- **Renderings are literals** of the values with these renderings. -/
theorem parse_format {v : Value} (h : v.Legible) :
    ∃ t w, v.format = .ok t ∧ Literal.parse t = .ok w ∧ w.format = .ok t ∧ v.ComesBack w := by
  rcases h.cases_container with ⟨b, x, rfl, hx⟩ | ⟨k, b, xs, hk, helements, hxs⟩
  · obtain ⟨b', y, hkind, htext, hparse⟩ := Literal.parse_render hx
    refine ⟨b.render x, _, rfl, hparse, ?_, ⟨b', y, rfl⟩, hkind⟩
    rw [← htext]
    rfl
  · obtain ⟨b', ys, htext, hkind, hparse⟩ := Literal.parse_enclose hxs
    refine ⟨_, _, ?_, hparse, ?_, ?_⟩
    · exact render_eq_ok.mpr (.container hk (helements ▸ shows_map xs))
    · rw [← htext]
      exact render_eq_ok.mpr (.container rfl (shows_map ys))
    · rw [ComesBack, hk]
      exact ⟨b', ys, rfl, helements ▸ forall₂_of_render_eq htext hkind⟩

/-- The least normal double, minus zero and the greatest double, pushed on a stack. -/
theorem parse_format_extremes :
    let least : Double := .finite false ⟨Format.double.leading, by decide⟩
    let zero : Double := .finite true ⟨0, by decide⟩
    let greatest : Double := .finite false ⟨Format.double.ceiling - 1, by decide⟩
    let v := stack ⟨none, .double⟩ (some ⟨[least, zero, greatest]⟩)
    v.Legible ∧ v.format = .ok "[1.79769e+308, -0, 2.22507e-308]" ∧
      ∃ t w, v.format = .ok t ∧ Literal.parse t = .ok w ∧ w.format = .ok t ∧ v.ComesBack w := by
  intro least zero greatest v
  have hleast : Base.double.Legible least := ⟨_, _, rfl, .inr le_rfl⟩
  have hzero : Base.double.Legible zero := ⟨_, _, rfl, .inl rfl⟩
  have hgreatest : Base.double.Legible greatest := ⟨_, _, rfl, .inr (by decide)⟩
  have hv : v.Legible := by
    refine .stack (List.forall_mem_cons.mpr ⟨hgreatest, List.forall_mem_cons.mpr ⟨hzero, ?_⟩⟩)
    exact List.forall_mem_singleton.mpr hleast
  have htext : enclose .plain [greatest.text, zero.text, least.text] =
      Text.ofString "[1.79769e+308, -0, 2.22507e-308]" := by decide +kernel
  exact ⟨hv, congrArg Except.ok htext, parse_format hv⟩

end Value

end Colloquy
