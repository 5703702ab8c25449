import Colloquy.Printer
import Colloquy.Proofs.Rendering

/-!
# Saying values

A printer composes the text of all values of a call before it writes anything.  A value without a
rendering leaves the text as it is.  A lenient printer warns about it and goes on; a strict one
stops there, before it has written or logged anything.

* `compose_lenient`: the text is made of the renderings of the renderable values, and there is one
  warning for each of the others, both in the order of the values.
* `compose_strict`: if all values are renderable, it makes no difference that the printer is strict.
* `compose_strict_error`: otherwise the first value that is not renderable is reported.
* `compose_styles`: the style of the renderings makes no other difference.
-/

namespace Colloquy

namespace Printer

open Value

/-- The warning about a value that is left out: it tells what offends, and shows the value. -/
def Warns (v : Value) (w : Entry) : Prop :=
  ∃ x, Offends v x ∧ w = ⟨.warning, "say: skipping value",
    [("error", .str (Error.unsupported "say" x).message), ("value", .str v.dump)]⟩

/-- **Without a logger of its own a printer warns nobody**, whoever else logs. -/
theorem logText_discard_warnings (g : Logger) {vs : List Value} {ws : List Entry}
    (h : List.Forall₂ Warns vs ws) : logText .discard g ws = [] := by
  induction h with
  | nil => rfl
  | cons hw _ ih =>
    obtain ⟨x, -, rfl⟩ := hw
    exact ih

theorem compose_lenient (s : Style) (vs : List Value) :
    ∃ ts ws, List.Forall₂ (Renders s) (vs.filter (·.Renderable)) ts ∧
      List.Forall₂ Warns (vs.filter (¬ ·.Renderable)) ws ∧
      compose ⟨s, false⟩ vs = .ok (ts.flatten, ws) := by
  induction vs with
  | nil => exact ⟨[], [], .nil, .nil, rfl⟩
  | cons v vs ih =>
    obtain ⟨ts, ws, hts, hws, hc⟩ := ih
    unfold compose
    cases hr : v.render s with
    | ok t =>
      have hv : v.Renderable := (renderable_iff s).mpr ⟨t, render_eq_ok.mp hr⟩
      refine ⟨t :: ts, ws, ?_, ?_, ?_⟩
      · rw [List.filter_cons_of_pos (by simpa using hv)]
        exact .cons (render_eq_ok.mp hr) hts
      · rw [List.filter_cons_of_neg (by simpa using hv)]
        exact hws
      · simp [hc, Except.map]
    | error e =>
      obtain ⟨x, hx, rfl⟩ := render_eq_error.mp hr
      have hv : ¬ v.Renderable := not_renderable_iff.mpr ⟨x, hx⟩
      refine ⟨ts, skipped v (.unsupported "say" x) :: ws, ?_, ?_, ?_⟩
      · rw [List.filter_cons_of_neg (by simpa using hv)]
        exact hts
      · rw [List.filter_cons_of_pos (by simpa using hv)]
        exact .cons ⟨x, hx, rfl⟩ hws
      · simp [hc, Except.map]

theorem compose_strict (s : Style) {vs : List Value} (h : ∀ v ∈ vs, v.Renderable) :
    compose ⟨s, true⟩ vs = compose ⟨s, false⟩ vs := by
  induction vs with
  | nil => rfl
  | cons v vs ih =>
    obtain ⟨t, ht⟩ := (renderable_iff s).mp (h v (by simp))
    unfold compose
    simp only [render_eq_ok.mpr ht]
    rw [ih fun u hu => h u (by simp [hu])]

theorem compose_strict_error (s : Style) {pre : List Value} {v : Value} (post : List Value)
    {x : Value} (hpre : ∀ u ∈ pre, u.Renderable) (hx : Offends v x) :
    compose ⟨s, true⟩ (pre ++ v :: post) = .error (.unsupported "say" x) := by
  induction pre with
  | nil => simp [compose, render_eq_error.mpr ⟨x, hx, rfl⟩]
  | cons u pre ih =>
    obtain ⟨t, ht⟩ := (renderable_iff s).mp (hpre u (by simp))
    rw [List.cons_append, compose]
    simp only [render_eq_ok.mpr ht]
    rw [ih fun u hu => hpre u (by simp [hu])]
    rfl

/-- **The style shows only in the text**: in every style the printer fails alike, or it makes the
same warnings and the renderings in that style. -/
theorem compose_styles (strict : Bool) (vs : List Value) :
    (∃ e, ∀ s, compose ⟨s, strict⟩ vs = .error e) ∨
      ∃ ws, ∀ s, ∃ ts, List.Forall₂ (Renders s) (vs.filter (·.Renderable)) ts ∧
        compose ⟨s, strict⟩ vs = .ok (ts.flatten, ws) := by
  induction vs with
  | nil => exact .inr ⟨[], fun s => ⟨[], .nil, rfl⟩⟩
  | cons v vs ih =>
    by_cases hv : v.Renderable
    · have hr (s : Style) : ∃ t, v.render s = .ok t := by
        obtain ⟨t, ht⟩ := (renderable_iff s).mp hv
        exact ⟨t, render_eq_ok.mpr ht⟩
      rcases ih with ⟨e, he⟩ | ⟨ws, hws⟩
      · refine .inl ⟨e, fun s => ?_⟩
        obtain ⟨t, ht⟩ := hr s
        rw [compose, ht, he s]
        rfl
      · refine .inr ⟨ws, fun s => ?_⟩
        obtain ⟨t, ht⟩ := hr s
        obtain ⟨ts, hts, hc⟩ := hws s
        refine ⟨t :: ts, ?_, ?_⟩
        · rw [List.filter_cons_of_pos (by simpa using hv)]
          exact .cons (render_eq_ok.mp ht) hts
        · rw [compose, ht, hc]
          rfl
    · obtain ⟨x, hx⟩ := not_renderable_iff.mp hv
      have hr (s : Style) : v.render s = .error (.unsupported "say" x) :=
        render_eq_error.mpr ⟨x, hx, rfl⟩
      cases strict with
      | true => exact .inl ⟨.unsupported "say" x, fun s => by simp [compose, hr s]⟩
      | false =>
        rcases ih with ⟨e, he⟩ | ⟨ws, hws⟩
        · refine .inl ⟨e, fun s => ?_⟩
          simp [compose, hr s, he s, Except.map]
        · refine .inr ⟨skipped v (.unsupported "say" x) :: ws, fun s => ?_⟩
          obtain ⟨ts, hts, hc⟩ := hws s
          refine ⟨ts, ?_, ?_⟩
          · rw [List.filter_cons_of_neg (by simpa using hv)]
            exact hts
          · simp [compose, hr s, hc, Except.map]

theorem exists_first_not_renderable {vs : List Value} (h : ∃ v ∈ vs, ¬ v.Renderable) :
    ∃ pre v post, vs = pre ++ v :: post ∧ (∀ u ∈ pre, u.Renderable) ∧ ¬ v.Renderable := by
  obtain ⟨v, hv⟩ := Option.isSome_iff_exists.mp
    (List.find?_isSome.mpr (by simpa using h) : (vs.find? (¬ ·.Renderable)).isSome)
  obtain ⟨hnot, pre, post, rfl, hpre⟩ := List.find?_eq_some_iff_append.mp hv
  exact ⟨pre, v, post, rfl, by simpa using hpre, by simpa using hnot⟩

/-- **What a printer says.**  A lenient printer makes one write, of the renderings of the renderable
values, and warns about each of the others.  A strict printer does the same if all values are
renderable; otherwise it writes and logs nothing, and reports what offends in the first value that
is not.  The result of the write is the result of the call. -/
theorem say_renderings_at_once (s : Style) (vs : List Value) (c : Console) :
    ∃ ts ws, List.Forall₂ (Renders s) (vs.filter (·.Renderable)) ts ∧
      List.Forall₂ Warns (vs.filter (¬ ·.Renderable)) ws ∧
      say ⟨s, false⟩ vs c =
        ((c.fault c.writes.length).elim (.ok ()) .error,
          { c with writes := c.writes ++ [ts.flatten], entries := c.entries ++ ws }) ∧
      ((∀ v ∈ vs, v.Renderable) → say ⟨s, true⟩ vs c =
        ((c.fault c.writes.length).elim (.ok ()) .error,
          { c with writes := c.writes ++ [ts.flatten] })) ∧
      ((∃ v ∈ vs, ¬ v.Renderable) → ∃ pre v post x, vs = pre ++ v :: post ∧
        (∀ u ∈ pre, u.Renderable) ∧ Offends v x ∧
        say ⟨s, true⟩ vs c = (.error (.unsupported "say" x), c)) := by
  obtain ⟨ts, ws, hts, hws, hc⟩ := compose_lenient s vs
  have hwrite : (c.log ws).write ts.flatten =
      ((c.fault c.writes.length).elim (.ok ()) .error,
        { c with writes := c.writes ++ [ts.flatten], entries := c.entries ++ ws }) := by
    unfold Console.write Console.log
    cases c.fault c.writes.length <;> rfl
  refine ⟨ts, ws, hts, hws, ?_, fun hall => ?_, fun hsome => ?_⟩
  · simp only [say, hc, hwrite]
  · have hnil : ws = [] := by
      have hf : vs.filter (¬ ·.Renderable) = [] := by simpa using hall
      rw [hf] at hws
      exact List.forall₂_nil_left_iff.mp hws
    subst hnil
    simp only [say, compose_strict s hall, hc, hwrite, List.append_nil]
  · obtain ⟨pre, v, post, rfl, hpre, hv⟩ := exists_first_not_renderable hsome
    obtain ⟨x, hx⟩ := not_renderable_iff.mp hv
    refine ⟨pre, v, post, x, rfl, hpre, hx, ?_⟩
    simp only [say, compose_strict_error s post hpre hx]

end Printer

end Colloquy
