import Colloquy.CommandLine.Run
import Colloquy.Proofs.Indexing
import Colloquy.Proofs.Literal
import Colloquy.Proofs.Saying

/-!
# Running command lines

All arguments of `say` and `index` are read as values before a builtin is called, and the builtin
has composed its whole text before it writes.  So a run that fails has written nothing, and a run
that succeeds has written everything.  The stages of a run, in their order:

* `Invocation.parse_name`: from the first argument that is no flag on, all are taken as they are.
* `Literal.parseAll_eq_ok`, `Literal.parseAll_eq_error`: all of them have values, or the first one
  without a value is reported.
* `Registry.call_live`, `Registry.call_live_error`: the builtin acts, or fails and writes nothing.
* `Printer.say_of_renders`: the values of literals can all be rendered, and are written at once.

`Run.Says`, `Run.Looks` and `Run.Replaces` say how the three kinds of runs end.
-/

namespace Colloquy

/-! ### Consoles on which all writes succeed -/

namespace Console

variable {c : Console}

/-- A console on which all writes succeed. -/
def Works (c : Console) : Prop := ∀ n, c.fault n = none

theorem works_new (input : Option Input) : (new input true).Works := fun _ => rfl

theorem Works.log (h : c.Works) (es : List Entry) : (c.log es).Works := h

theorem Works.write (h : c.Works) (t : Text) : (c.write t).2.Works := h

theorem Works.write_fst (h : c.Works) (t : Text) : (c.write t).1 = .ok () := by
  rw [Console.write, h]

theorem Works.output_eq (h : c.Works) : c.output = c.writes.flatten := by
  have hall : c.writes.zipIdx.filter (fun w => (c.fault w.2).isNone) = c.writes.zipIdx := by
    rw [List.filter_eq_self]
    intro w _
    rw [h]
    rfl
  rw [output, hall, List.flatMap_def, List.zipIdx_map_fst]

theorem Works.output_write (h : c.Works) (t : Text) : (c.write t).2.output = c.output ++ t := by
  rw [(h.write t).output_eq, h.output_eq, Console.write, List.flatten_append, List.flatten_singleton]

@[simp] theorem output_log (c : Console) (es : List Entry) : (c.log es).output = c.output := rfl

end Console

/-! ### Saying -/

namespace Printer

variable {p : Printer} {c : Console}

theorem compose_of_renders {vs : List Value} {ts : List Text}
    (h : List.Forall₂ (Value.Renders p.style) vs ts) : p.compose vs = .ok (ts.flatten, []) := by
  induction h with
  | nil => rfl
  | cons hv _ ih =>
    rw [compose, Value.render_eq_ok.mpr hv, ih]
    rfl

theorem say_of_renders {vs : List Value} {ts : List Text}
    (h : List.Forall₂ (Value.Renders p.style) vs ts) (hc : c.Works) :
    p.say vs c = (.ok (), (c.write ts.flatten).2) := by
  have hlog : c.log [] = c := by rw [Console.log, List.append_nil]
  rw [say, compose_of_renders h]
  change (c.log []).write ts.flatten = _
  rw [hlog, ← hc.write_fst ts.flatten]

end Printer

/-! ### Literals -/

namespace Literal

theorem parseAll_eq_ok {ts : List Text} {vs : List Value} :
    parseAll ts = .ok vs ↔ List.Forall₂ (fun t v => parse t = .ok v) ts vs := by
  induction ts generalizing vs with
  | nil => simp [parseAll, eq_comm]
  | cons t ts ih =>
    rw [parseAll, List.forall₂_cons_left_iff]
    cases h : parse t with
    | error e => simp
    | ok v =>
      simp only [Outcome.map_eq_ok, ih, Except.ok.injEq]
      constructor
      · rintro ⟨us, hus, rfl⟩
        exact ⟨v, us, rfl, hus, rfl⟩
      · rintro ⟨_, us, rfl, hus, rfl⟩
        exact ⟨us, hus, rfl⟩

/-- **The first literal without a value** is the one that is reported. -/
theorem parseAll_eq_error {pre : List Text} {t : Text} {e : Error} (post : List Text)
    (hpre : ∀ u ∈ pre, ∃ v, parse u = .ok v) (ht : parse t = .error e) :
    parseAll (pre ++ t :: post) = .error e := by
  induction pre with
  | nil => rw [List.nil_append, parseAll, ht]
  | cons u pre ih =>
    rw [List.forall_mem_cons] at hpre
    obtain ⟨⟨v, hv⟩, hpre⟩ := hpre
    rw [List.cons_append, parseAll, hv, ih hpre]
    rfl

/-- **What a literal can be**: a scalar or a container, but not one of singles. -/
theorem Denotes.cases_base {t : Text} {shape : Shape} {body : Text} {j : Option Json} {v : Value}
    (h : Denotes t shape body j v) :
    ∃ b : Base, b ≠ .single ∧ ((∃ x : b.Carrier, v = .scalar ⟨none, b⟩ x) ∨
      ∃ (shape : Shape) (xs : List b.Carrier), Filled b xs shape v) := by
  cases h with
  | bare => exact ⟨.text, by decide, .inl ⟨_, rfl⟩⟩
  | number => exact ⟨.double, by decide, .inl ⟨_, rfl⟩⟩
  | string => exact ⟨.text, by decide, .inl ⟨_, rfl⟩⟩
  | bool => exact ⟨.truth, by decide, .inl ⟨_, rfl⟩⟩
  | container h =>
    cases h with
    | numbers hv => exact ⟨.double, by decide, .inr ⟨_, _, hv⟩⟩
    | strings _ hv => exact ⟨.text, by decide, .inr ⟨_, _, hv⟩⟩
    | bools _ hv => exact ⟨.truth, by decide, .inr ⟨_, _, hv⟩⟩

theorem parse_vector {t : Text} {v : Value} (h : parse t = .ok v) {u : ElementType}
    (hu : v.elementType? = some u) : ∃ (b : Base) (xs : List b.Carrier), b ≠ .single ∧
      v = .slice none (.scalar ⟨none, b⟩) (some xs) := by
  obtain ⟨b, hb, ⟨x, rfl⟩ | ⟨shape, xs, hv⟩⟩ := (parse_eq_ok.mp h).cases_base
  · cases hu
  · cases hv with
    | array => exact ⟨b, xs, hb, rfl⟩
    | queue => cases hu
    | stack => cases hu

theorem parse_position {t : Text} {v : Value} (h : parse t = .ok v) {x : Double}
    (hx : Builtin.position v = .ok x) : v = .num x := by
  obtain ⟨b, hb, ⟨y, rfl⟩ | ⟨shape, xs, hv⟩⟩ := (parse_eq_ok.mp h).cases_base
  · cases b with
    | double => cases hx; rfl
    | single => exact absurd rfl hb
    | text => cases hx
    | truth => cases hx
  · cases hv <;> cases hx

/-- A literal for an element of an array of literals is a scalar of their type. -/
theorem parse_stored {t : Text} {v w : Value} (h : parse t = .ok v) {b : Base} (hb : b ≠ .single)
    (hv : Value.Stores (.atom (.scalar ⟨none, b⟩)) v w) :
    ∃ y : b.Carrier, v = .scalar ⟨none, b⟩ y ∧ w = .scalar ⟨none, b⟩ y := by
  obtain ⟨b', hb', ⟨y, rfl⟩ | ⟨shape, xs, hfilled⟩⟩ := (parse_eq_ok.mp h).cases_base
  · cases hv with
    | same => exact ⟨_, rfl, rfl⟩
    | narrowed => exact absurd rfl hb
    | widened => exact absurd rfl hb'
    | renamed => exact ⟨_, rfl, rfl⟩
  · cases hfilled <;> cases hv

/-- **An element of an array, by literals** for the array and for its position. -/
structure Selects (a p : Text) (b : Base) (xs : List b.Carrier) (i : ℕ) : Prop where
  array : parse a = .ok (.slice none (.scalar ⟨none, b⟩) (some xs))
  position : ∃ x, parse p = .ok (.num x) ∧ Indexing.FallsOn x xs.length i

theorem Selects.exists_element {a p : Text} {b : Base} {xs : List b.Carrier} {i : ℕ}
    (h : Selects a p b xs i) : ∃ x, xs[i]? = some x := by
  obtain ⟨_, -, hi⟩ := h.position
  exact hi.exists_element

end Literal

/-! ### The builtins of a program -/

namespace Registry

/-- The registry of a program. -/
def ofPrinter (p : Printer) : Registry := ⟨Builtin.defaults p⟩

theorem registerDefaults_empty (p : Printer) :
    empty.registerDefaults p = (.ok (), ofPrinter p) := rfl

section Call
variable {r : Registry} {name : Text} {b : Builtin} {act : Action} {args : List Value} {c : Console}
  (hfind : r.find? name = some b) (hact : b.action = some act) (hfits : b.takes args.length = true)
include hfind hact hfits

theorem gate_live : r.gate .live name args.length = .ok act := by
  simp [gate, Context.error?, hfind, hact, hfits]

theorem call_live (he : (act args c).error = none) : r.call .live name args c = act args c := by
  rw [call, gate_live hfind hact hfits]
  simp only [he]

theorem call_live_error {e : Error} (he : (act args c).error = some e) :
    (r.call .live name args c).error = some e ∧
      (r.call .live name args c).console = (act args c).console.log [failure name e] := by
  rw [call, gate_live hfind hact hfits]
  simp only [he, and_self]

end Call

end Registry

namespace Command

open Registry (ofPrinter)

variable {p : Printer} {c : Console}

/-! ### Saying values -/

theorem call_say {vs : List Value} (hne : vs ≠ []) {ts : List Text}
    (h : List.Forall₂ (Value.Renders p.style) vs ts) (hc : c.Works) :
    (ofPrinter p).call .live "say" vs c = ⟨.absent, none, vs, (c.write ts.flatten).2⟩ := by
  have hfits : (Builtin.say p).takes vs.length = true := by
    have := List.length_pos_iff.mpr hne
    simp [Builtin.takes, Builtin.say]
    omega
  have hfind : (ofPrinter p).find? "say" = some (Builtin.say p) := rfl
  have hsay := Printer.say_of_renders h hc
  rw [Registry.call_live hfind rfl hfits (by rw [hsay]; rfl), hsay]
  rfl

theorem runSay_eq {s : Settings} {args : List Text} (hne : args ≠ []) {vs : List Value}
    (hvs : Literal.parseAll args = .ok vs) {ts : List Text}
    (h : List.Forall₂ (Value.Renders p.style) vs ts) (hc : c.Works) (hn : s.noNewline = false) :
    runSay (ofPrinter p) s args c = (.ok (), ((c.write ts.flatten).2.write "\n").2) := by
  have hvne : vs ≠ [] := by
    rintro rfl
    exact hne (List.forall₂_nil_right_iff.mp (Literal.parseAll_eq_ok.mp hvs))
  rw [runSay, hvs]
  simp only [call_say hvne h hc, andThen, hn]
  rfl

theorem sayLine_eq {v : Value} {t : Text} (h : v.Renders p.style t) (hc : c.Works) :
    sayLine p v c = (.ok (), (c.write (t ++ "\n")).2) := by
  have hnewline : Value.Renders p.style (.str "\n") "\n" := .scalar (.scalar .text _)
  rw [sayLine, Printer.say_of_renders (.cons h (.cons hnewline .nil)) hc]
  simp

/-! ### Reading and replacing elements -/

theorem index_takes {args : List Value} (h : args.length = 2 ∨ args.length = 3) :
    Builtin.index.takes args.length = true := by
  rcases h with h | h <;> rw [h] <;> decide

theorem find?_index (p : Printer) : (ofPrinter p).find? "index" = some Builtin.index := rfl

section Index
variable {args : List Text} {vs : List Value} (hparse : Literal.parseAll args = .ok vs)
  (hlen : vs.length = 2 ∨ vs.length = 3)
include hparse hlen

theorem runIndex_of_error {e : Error} {us : List Value}
    (haction : Builtin.indexAction vs c = ⟨.absent, some e, us, c⟩) :
    ∃ c', runIndex p (ofPrinter p) args c = (.error e, c') ∧ c'.output = c.output := by
  obtain ⟨herror, hconsole⟩ := Registry.call_live_error (find?_index p) rfl (index_takes hlen)
    (congrArg Reply.error haction)
  refine ⟨((ofPrinter p).call .live "index" vs c).console, ?_, ?_⟩
  · rw [runIndex, hparse]
    simp only [andThen, herror]
  · rw [hconsole, haction, Console.output_log]

section Reply
variable {t : Text} (he : (Builtin.indexAction vs c).error = none)
  (ht : (Builtin.indexAction vs c).value.Renders p.style t)
  (hconsole : (Builtin.indexAction vs c).console = c) (hc : c.Works)
include he ht hconsole hc

theorem runIndex_of_two {x y : Value} (hargs : (Builtin.indexAction vs c).arguments = [x, y]) :
    runIndex p (ofPrinter p) args c = (.ok (), (c.write (t ++ "\n")).2) := by
  rw [runIndex, hparse]
  simp only [Registry.call_live (find?_index p) rfl (index_takes hlen) he, andThen, he, hconsole,
    sayLine_eq ht hc, hargs]

theorem runIndex_of_three {vec x y : Value}
    (hargs : (Builtin.indexAction vs c).arguments = [vec, x, y]) :
    runIndex p (ofPrinter p) args c = sayLine p vec (c.write (t ++ "\n")).2 := by
  rw [runIndex, hparse]
  simp only [Registry.call_live (find?_index p) rfl (index_takes hlen) he, andThen, he, hconsole,
    sayLine_eq ht hc, hargs]

end Reply

end Index

section Selects
variable {a q : Text} {b : Base} {xs : List b.Carrier} {i : ℕ}

theorem runIndex_found (h : Literal.Selects a q b xs i) {x : b.Carrier} (hx : xs[i]? = some x)
    (hc : c.Works) :
    runIndex p (ofPrinter p) [a, q] c = (.ok (), (c.write (b.render x ++ "\n")).2) := by
  obtain ⟨pos, hpos, hi⟩ := h.position
  have hindex : (Value.slice none (.scalar ⟨none, b⟩) (some xs)).index pos =
      .ok (.scalar ⟨none, b⟩ x) := by
    rw [← List.length_map (Value.atom (.scalar ⟨none, b⟩))] at hi
    refine Value.index_of_fallsOn (t := .atom (.scalar ⟨none, b⟩)) rfl hi ?_
    simp [Value.elements, hx, Value.scalar]
  have haction : Builtin.indexAction [.slice none (.scalar ⟨none, b⟩) (some xs), .num pos] c =
      ⟨.scalar ⟨none, b⟩ x, none, [.slice none (.scalar ⟨none, b⟩) (some xs), .num pos], c⟩ := by
    change Builtin.answer _ c ((Value.slice none (.scalar ⟨none, b⟩) (some xs)).index pos) = _
    rw [hindex]
    rfl
  have hparse := Literal.parseAll_eq_ok.mpr (.cons h.array (.cons hpos .nil))
  have ht : (Value.scalar ⟨none, b⟩ x).Renders p.style (b.render x) := .scalar (.scalar b x)
  exact runIndex_of_two hparse (.inl rfl) (by rw [haction]) (by rw [haction]; exact ht)
    (by rw [haction]) hc (by rw [haction])

theorem runIndex_failed
    (h : ∀ (b : Base) (xs : List b.Carrier) (i : ℕ), ¬ Literal.Selects a q b xs i) :
    ∃ e c', runIndex p (ofPrinter p) [a, q] c = (.error e, c') ∧ c'.output = c.output := by
  cases hparse : Literal.parseAll [a, q] with
  | error e => exact ⟨e, c, by rw [runIndex, hparse], rfl⟩
  | ok vs =>
    have hall := Literal.parseAll_eq_ok.mp hparse
    obtain ⟨vec, _, ha, hrest, rfl⟩ := List.forall₂_cons_left_iff.mp hall
    obtain ⟨v, _, hq, hnil, rfl⟩ := List.forall₂_cons_left_iff.mp hrest
    cases hnil
    cases hindex : Builtin.position v >>= vec.index with
    | error e =>
      have haction : Builtin.indexAction [vec, v] c = ⟨.absent, some e, [vec, v], c⟩ := by
        change Builtin.answer _ c (Builtin.position v >>= vec.index) = _
        rw [hindex]
        rfl
      exact ⟨e, runIndex_of_error hparse (.inl rfl) haction⟩
    | ok old =>
      exfalso
      obtain ⟨pos, hpos, hold⟩ := Outcome.bind_eq_ok.mp hindex
      obtain rfl := Literal.parse_position hq hpos
      cases ht : vec.elementType? with
      | none => rw [Value.index_of_not_vector ht] at hold; cases hold
      | some t =>
        obtain ⟨b, xs, -, rfl⟩ := Literal.parse_vector ha ht
        rw [Value.index_eq_get ht] at hold
        obtain ⟨i, hi, -⟩ := Indexing.get_eq_ok.mp hold
        rw [Value.elements, List.length_map] at hi
        exact h b xs i ⟨ha, pos, hq, hi⟩

theorem runIndex_replaced (hp : p.style = .plain) (h : Literal.Selects a q b xs i) {x y : b.Carrier}
    (hx : xs[i]? = some x) {v : Text} (hv : Literal.parse v = .ok (.scalar ⟨none, b⟩ y))
    (hc : c.Works) {t : Text}
    (ht : (Value.slice none (.scalar ⟨none, b⟩) (some (xs.set i y))).format = .ok t) :
    runIndex p (ofPrinter p) [a, q, v] c =
      (.ok (), ((c.write (b.render x ++ "\n")).2.write (t ++ "\n")).2) := by
  obtain ⟨pos, hpos, hi⟩ := h.position
  have hy : Value.Stores (.atom (.scalar ⟨none, b⟩)) (.scalar ⟨none, b⟩ y) (.scalar ⟨none, b⟩ y) :=
    .same (.scalar ⟨none, b⟩) y
  have hset : (Builtin.position (.num pos) >>= fun x =>
      (Value.slice none (.scalar ⟨none, b⟩) (some xs)).setIndex x (.scalar ⟨none, b⟩ y)) =
      .ok (.scalar ⟨none, b⟩ x, .slice none (.scalar ⟨none, b⟩) (some (xs.set i y))) := by
    rw [← List.length_map (Value.atom (.scalar ⟨none, b⟩))] at hi
    obtain ⟨old, after, hold, hr, hset⟩ := Value.setIndex_of_fallsOn
      (show (Value.slice none (.scalar ⟨none, b⟩) (some xs)).elementType? = _ from rfl) hy hi
    obtain rfl : Value.scalar ⟨none, b⟩ x = old := by
      simpa [Value.elements, hx, Value.scalar] using hold
    rw [(Value.Replaced.slice none (.scalar ⟨none, b⟩) xs i y).unique hr] at hset
    exact hset
  have haction : Builtin.indexAction
      [.slice none (.scalar ⟨none, b⟩) (some xs), .num pos, .scalar ⟨none, b⟩ y] c =
      ⟨.scalar ⟨none, b⟩ x, none,
        [.slice none (.scalar ⟨none, b⟩) (some (xs.set i y)), .num pos, .scalar ⟨none, b⟩ y], c⟩ := by
    rw [Builtin.indexAction, hset]
  have hparse := Literal.parseAll_eq_ok.mpr (.cons h.array (.cons hpos (.cons hv .nil)))
  have hx' : (Value.scalar ⟨none, b⟩ x).Renders p.style (b.render x) := .scalar (.scalar b x)
  rw [runIndex_of_three hparse (.inr rfl) (by rw [haction]) (by rw [haction]; exact hx')
    (by rw [haction]) hc (by rw [haction])]
  exact sayLine_eq (by rw [hp]; exact Value.render_eq_ok.mp ht) (hc.write _)

theorem runIndex_not_replaced {v : Text}
    (h : ∀ (b : Base) (xs : List b.Carrier) (i : ℕ) (y : b.Carrier), Literal.Selects a q b xs i →
      Literal.parse v ≠ .ok (.scalar ⟨none, b⟩ y)) :
    ∃ e c', runIndex p (ofPrinter p) [a, q, v] c = (.error e, c') ∧ c'.output = c.output := by
  cases hparse : Literal.parseAll [a, q, v] with
  | error e => exact ⟨e, c, by rw [runIndex, hparse], rfl⟩
  | ok vs =>
    have hall := Literal.parseAll_eq_ok.mp hparse
    obtain ⟨vec, _, ha, hrest, rfl⟩ := List.forall₂_cons_left_iff.mp hall
    obtain ⟨u, _, hq, hlast, rfl⟩ := List.forall₂_cons_left_iff.mp hrest
    obtain ⟨w, _, hv, hnil, rfl⟩ := List.forall₂_cons_left_iff.mp hlast
    cases hnil
    cases hset : Builtin.position u >>= fun x => vec.setIndex x w with
    | error e =>
      have haction : Builtin.indexAction [vec, u, w] c = ⟨.absent, some e, [vec, u, w], c⟩ := by
        rw [Builtin.indexAction, hset]
      exact ⟨e, runIndex_of_error hparse (.inr rfl) haction⟩
    | ok r =>
      exfalso
      obtain ⟨pos, hpos, hr⟩ := Outcome.bind_eq_ok.mp hset
      obtain rfl := Literal.parse_position hq hpos
      cases ht : vec.elementType? with
      | none => rw [Value.setIndex_of_not_vector ht] at hr; cases hr
      | some t =>
        obtain ⟨b, xs, hb, rfl⟩ := Literal.parse_vector ha ht
        obtain rfl := Option.some.inj ht
        by_cases hstored : ∃ y, Value.Stores (.atom (.scalar ⟨none, b⟩)) w y
        · obtain ⟨x, hx⟩ := hstored
          obtain ⟨y, rfl, -⟩ := Literal.parse_stored hv hb hx
          obtain ⟨i, hi, -⟩ | ⟨-, k, he⟩ := Indexing.resolve_cases "set" pos xs.length
          · exact h b xs i y ⟨ha, pos, hq, hi⟩ hv
          · rw [← List.length_map (Value.atom (.scalar ⟨none, b⟩))] at he
            rw [Value.setIndex_of_unresolved ht hx he] at hr
            cases hr
        · obtain ⟨e, he, -⟩ := Value.setIndex_of_unstorable (p := pos) ht (not_exists.mp hstored)
          rw [he] at hr
          cases hr

end Selects

/-! ### Finding the command -/

/-- The commands all of whose arguments are literals. -/
def TakesLiterals (cmd : Command) : Prop := cmd = .say ∨ cmd = .index

/-- A subcommand that has no subcommands of its own is found by its name. -/
theorem locate_name {cmd : Command} (hcmd : cmd ∈ program.subcommands) (hleaf : cmd.subcommands = [])
    (rest : List Text) : locate (cmd.name :: rest) = .ok (cmd, rest) := by
  have hplain : ∀ d ∈ program.subcommands, d.name ≠ "--" ∧
      Flag.takesNext Flag.shared d.name = false ∧ d.name.isEmpty = false ∧
      Flag.dashed d.name = false ∧ program.subcommands.find? (·.name == d.name) = some d ∧
      d ≠ program := by
    decide
  obtain ⟨hdashes, htakes, hempty, hdashed, hfind, hne⟩ := hplain cmd hcmd
  have hwords : Flag.words Flag.shared (cmd.name :: rest) =
      cmd.name :: Flag.words Flag.shared rest := by
    rw [Flag.words.eq_def]
    simp only [if_neg hdashes, htakes, hempty, hdashed]
    rfl
  have hdrop : Flag.dropWord Flag.shared cmd.name (cmd.name :: rest) = rest := by
    rw [Flag.dropWord.eq_def]
    simp only [if_neg hdashes, htakes, hdashed]
    simp
  have henter : program.enter cmd.name (cmd.name :: rest) = (cmd, rest) := by
    rw [enter, hfind, hdrop]
  have hself (w : Text) : cmd.enter w rest = (cmd, rest) := by
    rw [enter, hleaf]
    rfl
  rw [locate, hwords]
  simp only [henter]
  split
  · rfl
  · exact congrArg Except.ok (hself _)

theorem TakesLiterals.locate_name {cmd : Command} (hcmd : cmd.TakesLiterals) (rest : List Text) :
    locate (cmd.name :: rest) = .ok (cmd, rest) := by
  rcases hcmd with rfl | rfl <;> exact Command.locate_name (by decide) rfl rest

end Command

namespace Invocation

open Registry (ofPrinter)

/-- **The first argument is no flag**: it is empty or a single dash, or does not start with one. -/
def Positional (a : Text) : Prop := a = [] ∨ a = "-" ∨ ¬ Text.ofString "-" <+: a

theorem Positional.not_flag {a : Text} (ha : Positional a) :
    (!Flag.dashed a || a.length == 1) = true := by
  rcases ha with rfl | rfl | ha
  · rfl
  · rfl
  · cases a with
    | nil => rfl
    | cons b a =>
      have hb : b ≠ 45 := by
        rintro rfl
        exact ha ⟨a, rfl⟩
      simp [Flag.dashed, hb]

/-- From the first argument that is no flag on, all arguments are taken as they are. -/
theorem parse_name {cmd : Command} (hcmd : cmd.TakesLiterals) {a : Text} (ha : Positional a)
    (as : List Text) : parse (cmd.name :: a :: as) = .ok ⟨cmd, { }, a :: as⟩ := by
  have hread : Flag.read cmd.flags cmd.interspersed (a :: as) { } = .ok ({ }, a :: as) := by
    have hafter : cmd.interspersed = false := by rcases hcmd with rfl | rfl <;> rfl
    rw [Flag.read, if_pos ha.not_flag, hafter]
    rfl
  rw [parse, hcmd.locate_name]
  simp only [hread]

theorem isHelp_of_takesLiterals {cmd : Command} (hcmd : cmd.TakesLiterals) {s : Settings}
    (hs : s.help = false) (args : List Text) : (⟨cmd, s, args⟩ : Invocation).isHelp = false := by
  rw [isHelp, hs]
  rcases hcmd with rfl | rfl <;> rfl

theorem style_printer {s : Settings} (hs : s.legacyBackspace = false) :
    (printer s).style = .plain := by
  rw [printer, hs]
  rfl

section Run
variable {i : Invocation} {level : Level} (hhelp : i.isHelp = false)
  (hcount : i.command.checkCount i.arguments = .ok ())
  (hlevel : Level.ofSetting i.settings.logLevel = .ok level) {m : Manual} {c c' : Console}
include hhelp hcount hlevel

theorem run_of_error {e : Error} (h : i.command.run m (printer i.settings)
      (ofPrinter (printer i.settings)) i.settings i.arguments (c.log [configured i.settings]) =
        (.error e, c')) : i.run m c = ⟨some e, c', level⟩ := by
  rw [run, hhelp, hcount, hlevel]
  simp only [Registry.registerDefaults_empty, h]
  rfl

theorem run_of_ok (h : i.command.run m (printer i.settings) (ofPrinter (printer i.settings))
      i.settings i.arguments (c.log [configured i.settings]) = (.ok (), c')) :
    i.run m c = ⟨none, c', level⟩ := by
  rw [run, hhelp, hcount, hlevel]
  simp only [Registry.registerDefaults_empty, h]
  rfl

end Run

end Invocation

/-! ### Whole runs -/

namespace Run

/-- **How a run of `say` ends.**  It reports the first literal without a value and writes nothing, or
it writes the renderings of the values and ends the line. -/
structure Says (args : List Text) (r : Run) : Prop where
  failed {pre : List Text} {a : Text} {post : List Text} {e : Error} (hargs : args = pre ++ a :: post)
    (hpre : ∀ t ∈ pre, ∃ v, Literal.parse t = .ok v) (ha : Literal.parse a = .error e) :
    r.error = some e ∧ r.output = []
  said {vs : List Value} (hvs : List.Forall₂ (fun t v => Literal.parse t = .ok v) args vs) :
    r.error = none ∧ ∃ ts : List Text, List.Forall₂ (fun v t => v.format = .ok t) vs ts ∧
      r.output = ts.flatten ++ "\n"

/-- **How a run of `index` with two arguments ends.**  It writes the element that they select, or it
fails and writes nothing. -/
structure Looks (a q : Text) (r : Run) : Prop where
  found {b : Base} {xs : List b.Carrier} {i : ℕ} (h : Literal.Selects a q b xs i) :
    r.error = none ∧ ∃ x t, xs[i]? = some x ∧ (Value.scalar ⟨none, b⟩ x).format = .ok t ∧
      r.output = t ++ "\n"
  failed (h : ∀ (b : Base) (xs : List b.Carrier) (i : ℕ), ¬ Literal.Selects a q b xs i) :
    (∃ e, r.error = some e) ∧ r.output = []

/-- **How a run of `index` with three arguments ends.**  It writes the element that the first two
select, and the array with the third one in its place; or it fails and writes nothing. -/
structure Replaces (a q v : Text) (r : Run) : Prop where
  replaced {b : Base} {xs : List b.Carrier} {i : ℕ} {y : b.Carrier}
    (h : Literal.Selects a q b xs i) (hv : Literal.parse v = .ok (.scalar ⟨none, b⟩ y)) :
    r.error = none ∧ ∃ x t u, xs[i]? = some x ∧ (Value.scalar ⟨none, b⟩ x).format = .ok t ∧
      (Value.slice none (.scalar ⟨none, b⟩) (some (xs.set i y))).format = .ok u ∧
      r.output = t ++ "\n" ++ u ++ "\n"
  failed (h : ∀ (b : Base) (xs : List b.Carrier) (i : ℕ) (y : b.Carrier),
      Literal.Selects a q b xs i → Literal.parse v ≠ .ok (.scalar ⟨none, b⟩ y)) :
    (∃ e, r.error = some e) ∧ r.output = []

end Run

theorem exists_formats {args : List Text} {vs : List Value}
    (h : List.Forall₂ (fun t v => Literal.parse t = .ok v) args vs) :
    ∃ ts, List.Forall₂ (Value.Renders .plain) vs ts := by
  induction h with
  | nil => exact ⟨[], .nil⟩
  | cons hv _ ih =>
    obtain ⟨t, ht⟩ := (Value.renderable_iff .plain).mp (Literal.renderable_of_parse hv)
    obtain ⟨ts, hts⟩ := ih
    exact ⟨t :: ts, .cons ht hts⟩

section Runs
variable {s : Settings} {level : Level} (hhelp : s.help = false) (hlegacy : s.legacyBackspace = false)
  (hlevel : Level.ofSetting s.logLevel = .ok level) (m : Manual) (input : Option Input)
include hhelp hlegacy hlevel

theorem run_says (hnewline : s.noNewline = false) {args : List Text} (hne : args ≠ []) :
    Run.Says args ((⟨.say, s, args⟩ : Invocation).run m (.new input true)) := by
  have hhelp' := Invocation.isHelp_of_takesLiterals (.inl rfl) hhelp args
  have hcount : Command.say.checkCount args = .ok () := by
    have := List.length_pos_iff.mpr hne
    rw [Command.checkCount.eq_def]
    exact if_neg (by omega)
  have hworks := (Console.works_new input).log [Invocation.configured s]
  refine ⟨?_, ?_⟩
  · rintro pre a post e rfl hpre ha
    have hrun : Command.runSay (Registry.ofPrinter (Invocation.printer s)) s (pre ++ a :: post)
        ((Console.new input true).log [Invocation.configured s]) =
        (.error e, (Console.new input true).log [Invocation.configured s]) := by
      rw [Command.runSay, Literal.parseAll_eq_error post hpre ha]
    rw [Invocation.run_of_error hhelp' hcount hlevel hrun]
    exact ⟨rfl, rfl⟩
  · intro vs hvs
    obtain ⟨ts, hts⟩ := exists_formats hvs
    have hrun := Command.runSay_eq hne (Literal.parseAll_eq_ok.mpr hvs)
      (Invocation.style_printer hlegacy ▸ hts) hworks hnewline
    rw [Invocation.run_of_ok hhelp' hcount hlevel hrun]
    refine ⟨rfl, ts, hts.imp fun v t => Value.render_eq_ok.mpr, ?_⟩
    rw [Run.output, (hworks.write _).output_write, hworks.output_write]
    rfl

omit hlegacy in
theorem run_looks (a q : Text) :
    Run.Looks a q ((⟨.index, s, [a, q]⟩ : Invocation).run m (.new input true)) := by
  have hhelp' := Invocation.isHelp_of_takesLiterals (.inr rfl) hhelp [a, q]
  have hcount : Command.index.checkCount [a, q] = .ok () := rfl
  have hworks := (Console.works_new input).log [Invocation.configured s]
  refine ⟨?_, ?_⟩
  · intro b xs i h
    obtain ⟨x, hx⟩ := h.exists_element
    have hrun := Command.runIndex_found (p := Invocation.printer s) h hx hworks
    rw [Invocation.run_of_ok hhelp' hcount hlevel hrun]
    refine ⟨rfl, x, _, hx, rfl, ?_⟩
    rw [Run.output, hworks.output_write]
    rfl
  · intro h
    obtain ⟨e, c, hrun, houtput⟩ := Command.runIndex_failed (p := Invocation.printer s)
      (c := (Console.new input true).log [Invocation.configured s]) h
    rw [Invocation.run_of_error hhelp' hcount hlevel hrun]
    exact ⟨⟨e, rfl⟩, houtput⟩

theorem run_replaces (a q v : Text) :
    Run.Replaces a q v ((⟨.index, s, [a, q, v]⟩ : Invocation).run m (.new input true)) := by
  have hhelp' := Invocation.isHelp_of_takesLiterals (.inr rfl) hhelp [a, q, v]
  have hcount : Command.index.checkCount [a, q, v] = .ok () := rfl
  have hworks := (Console.works_new input).log [Invocation.configured s]
  refine ⟨?_, ?_⟩
  · intro b xs i y h hv
    obtain ⟨x, hx⟩ := h.exists_element
    have hformat : (Value.slice none (.scalar ⟨none, b⟩) (some (xs.set i y))).format = .ok _ :=
      Value.render_eq_ok.mpr (.container rfl (Value.shows_map (xs.set i y)))
    have hrun := Command.runIndex_replaced (Invocation.style_printer hlegacy) h hx hv hworks hformat
    rw [Invocation.run_of_ok hhelp' hcount hlevel hrun]
    refine ⟨rfl, x, _, _, hx, rfl, hformat, ?_⟩
    have hempty : ((Console.new input true).log [Invocation.configured s]).output = [] := rfl
    rw [Run.output, (hworks.write _).output_write, hworks.output_write, hempty, List.nil_append,
      ← List.append_assoc]
  · intro h
    obtain ⟨e, c, hrun, houtput⟩ := Command.runIndex_not_replaced (p := Invocation.printer s)
      (c := (Console.new input true).log [Invocation.configured s]) h
    rw [Invocation.run_of_error hhelp' hcount hlevel hrun]
    exact ⟨⟨e, rfl⟩, houtput⟩

end Runs

/-- **All or nothing.**  Whatever the arguments of `say` and `index` are, if the first one is no
flag, they are all taken for literals, and the run writes everything that it is asked for or fails
before it writes anything. -/
theorem runCommandLine_all_or_nothing (m : Manual) (input : Option Input) {a : Text}
    (ha : Invocation.Positional a) :
    (∀ as, Run.Says (a :: as) (runCommandLine m ("say" :: a :: as) (.new input true))) ∧
    (∀ q, Run.Looks a q (runCommandLine m ["index", a, q] (.new input true))) ∧
    ∀ q v, Run.Replaces a q v (runCommandLine m ["index", a, q, v] (.new input true)) := by
  have hlevel : Level.ofSetting ({ } : Settings).logLevel = .ok .warning := rfl
  have hrun {cmd : Command} (hcmd : cmd.TakesLiterals) (as : List Text) (c : Console) :
      runCommandLine m (cmd.name :: a :: as) c = (⟨cmd, { }, a :: as⟩ : Invocation).run m c := by
    rw [runCommandLine, Invocation.parse_name hcmd ha]
  refine ⟨fun as => ?_, fun q => ?_, fun q v => ?_⟩
  · exact hrun (.inl rfl) as _ ▸ run_says rfl rfl hlevel m input rfl (List.cons_ne_nil a as)
  · exact hrun (.inr rfl) [q] _ ▸ run_looks rfl hlevel m input a q
  · exact hrun (.inr rfl) [q, v] _ ▸ run_replaces rfl rfl hlevel m input a q v

/-- An array that is said before words that look like flags, whose first element is read, and whose
second element is replaced. -/
theorem runCommandLine_array :
    let m : Manual := ⟨fun _ _ => [], fun _ _ => []⟩
    let a := Text.ofString "[1e1,20]"
    let c := Console.new none true
    Invocation.Positional a ∧
    Run.Says [a, "--strict", "--"] (runCommandLine m ["say", a, "--strict", "--"] c) ∧
    (runCommandLine m ["say", a, "--strict", "--"] c).output = "[10, 20]--strict--\n" ∧
    Run.Looks a "-0.4" (runCommandLine m ["index", a, "-0.4"] c) ∧
    (runCommandLine m ["index", a, "-0.4"] c).output = "10\n" ∧
    Run.Replaces a "0.5" "3" (runCommandLine m ["index", a, "0.5", "3"] c) ∧
    (runCommandLine m ["index", a, "0.5", "3"] c).output = "20\n[10, 3]\n" := by
  intro m a c
  have ha : Invocation.Positional a := .inr (.inr (by decide))
  obtain ⟨hsay, hlook, hreplace⟩ := runCommandLine_all_or_nothing m none ha
  exact ⟨ha, hsay _, by decide +kernel, hlook _, by decide +kernel, hreplace _ _, by decide +kernel⟩

end Colloquy
