import Colloquy.Proofs.CommandLine.Running

/-!
# Dialogues

What a command does, told without its printer: which values it says and asks with, what it logs, and
how it goes on from each outcome (`Dialogue`).  A printer performs a dialogue, and every run of a
command is the performance of the same dialogue, whatever the printer (`run_eq_perform`).

A dialogue is *smooth* if all values in it can be rendered and all entries are for debugging only.
The dialogues of all commands are smooth (`smooth_dialogue`), since the values of literals, the
elements of arrays of them, lengths and lines can all be rendered.  It makes no difference to a
smooth dialogue whether the printer is strict, nor what was logged before (`Smooth.perform`).
-/

namespace Colloquy

/-- **What a command does**, step by step; how it goes on may depend on the outcome of a step. -/
inductive Dialogue where
  | stop (outcome : Except Error Unit)
  | log (e : Entry) (next : Dialogue)
  /-- Writes a text, whether it arrives or not. -/
  | write (t : Text) (next : Dialogue)
  | say (vs : List Value) (next : Except Error Unit → Dialogue)
  | ask (prompt : List Value) (next : Except Error Text → Dialogue)

namespace Dialogue

/-- **A printer performs a dialogue** on a console. -/
def perform (p : Printer) : Dialogue → Console → Except Error Unit × Console
  | stop o, c => (o, c)
  | log e d, c => d.perform p (c.log [e])
  | write t d, c => d.perform p (c.write t).2
  | say vs k, c => (k (p.say vs c).1).perform p (p.say vs c).2
  | ask vs k, c => (k (p.ask vs c).1).perform p (p.ask vs c).2

/-- **A smooth dialogue**: all that is said in it can be rendered, and what is logged is for
debugging only. -/
inductive Smooth : Dialogue → Prop
  | stop (o : Except Error Unit) : Smooth (stop o)
  | log {e : Entry} {d : Dialogue} (he : e.level = .debug) (hd : Smooth d) : Smooth (log e d)
  | write (t : Text) {d : Dialogue} (hd : Smooth d) : Smooth (write t d)
  | say {vs : List Value} {k : Except Error Unit → Dialogue} (hvs : ∀ v ∈ vs, v.Renderable)
      (hk : ∀ o, Smooth (k o)) : Smooth (say vs k)
  | ask {vs : List Value} {k : Except Error Text → Dialogue} (hvs : ∀ v ∈ vs, v.Renderable)
      (hk : ∀ o, Smooth (k o)) : Smooth (ask vs k)

/-! ### Printers in a smooth dialogue -/

/-- Values that can all be rendered are said alike by strict and lenient printers, whatever was
logged. -/
theorem say_renderable (style : Style) {vs : List Value} (h : ∀ v ∈ vs, v.Renderable)
    (c : Console) : ∃ o t, ∀ strict es, Printer.say ⟨style, strict⟩ vs { c with entries := es } =
      (o, { c with writes := c.writes ++ [t], entries := es }) := by
  have hall : vs.filter (·.Renderable) = vs := by simpa [List.filter_eq_self] using h
  obtain ⟨ts, _, hts, -, -⟩ := Printer.compose_lenient style vs
  rw [hall] at hts
  refine ⟨(c.write ts.flatten).1, ts.flatten, fun strict es => ?_⟩
  have hc := Printer.compose_of_renders (p := ⟨style, strict⟩) hts
  simp only [Printer.say, hc, Console.write, Console.log, List.append_nil]

theorem readLine_unlogged (c : Console) : ∃ r i, ∀ es,
    ({ c with entries := es } : Console).readLine = (r, { c with input := i, entries := es }) := by
  obtain ⟨input, fault, writes, entries⟩ := c
  cases input <;> exact ⟨_, _, fun es => rfl⟩

/-- **Strictness and the log make no difference to a smooth dialogue**: it has one outcome, leaves
the console in one way, and adds the same entries to the log. -/
theorem Smooth.perform {d : Dialogue} (h : d.Smooth) (style : Style) (c : Console) :
    ∃ (o : Except Error Unit) (c' : Console) (new : List Entry), (∀ e ∈ new, e.level = .debug) ∧
      ∀ strict es, d.perform ⟨style, strict⟩ { c with entries := es } =
        (o, { c' with entries := es ++ new }) := by
  induction h generalizing c with
  | stop o => exact ⟨o, c, [], by simp, fun strict es => by simp [Dialogue.perform]⟩
  | @log e d he hd ih =>
    obtain ⟨o, c', new, hnew, hperform⟩ := ih c
    refine ⟨o, c', e :: new, List.forall_mem_cons.mpr ⟨he, hnew⟩, fun strict es => ?_⟩
    have := hperform strict (es ++ [e])
    rwa [List.append_assoc] at this
  | @write t d hd ih =>
    obtain ⟨o, c', new, hnew, hperform⟩ := ih { c with writes := c.writes ++ [t] }
    exact ⟨o, c', new, hnew, hperform⟩
  | @say vs k hvs hk ih =>
    obtain ⟨o, t, hsay⟩ := say_renderable style hvs c
    obtain ⟨o', c', new, hnew, hperform⟩ := ih o { c with writes := c.writes ++ [t] }
    refine ⟨o', c', new, hnew, fun strict es => ?_⟩
    rw [Dialogue.perform, hsay]
    exact hperform strict es
  | @ask vs k hvs hk ih =>
    obtain ⟨o, t, hsay⟩ := say_renderable style hvs c
    -- only a prompt that was written is followed by a line
    cases o with
    | error e =>
      obtain ⟨o', c', new, hnew, hperform⟩ := ih (.error e) { c with writes := c.writes ++ [t] }
      refine ⟨o', c', new, hnew, fun strict es => ?_⟩
      rw [Dialogue.perform, Printer.ask, hsay]
      exact hperform strict es
    | ok u =>
      obtain ⟨r, i, hread⟩ := readLine_unlogged { c with writes := c.writes ++ [t] }
      obtain ⟨o', c', new, hnew, hperform⟩ := ih r { c with writes := c.writes ++ [t], input := i }
      refine ⟨o', c', new, hnew, fun strict es => ?_⟩
      rw [Dialogue.perform, Printer.ask, hsay]
      simp only [hread]
      exact hperform strict es

end Dialogue

/-! ### The dialogues of commands -/

namespace Command

open Dialogue
open Registry (ofPrinter)

/-- What is done when a call has failed. -/
def failed (name : Text) (e : Error) : Dialogue :=
  .log (Registry.failure name e) (.stop (.error e))

/-- Says a value on a line of its own and goes on. -/
def lineThen (v : Value) (next : Dialogue) : Dialogue :=
  .say [v, .str "\n"] fun
    | .error e => .stop (.error e)
    | .ok () => next

/-- Goes on from the reply of an action that leaves the console alone. -/
def replied (name : Text) (r : Reply) (next : Reply → Dialogue) : Dialogue :=
  match r.error with
  | some e => failed name e
  | none => next r

/-- Writes texts one after the other, whether they arrive or not. -/
def writes (ts : List Text) : Dialogue := ts.foldr .write (.stop (.ok ()))

/-- A console for actions that leave it alone. -/
def idle : Console := .new none true

/-- Goes on from the values of literals. -/
def withLiterals (args : List Text) (next : List Value → Dialogue) : Dialogue :=
  match Literal.parseAll args with
  | .error e => .stop (.error e)
  | .ok vs => next vs

/-- **The dialogue of a command.** -/
def dialogue (m : Manual) (s : Settings) (args : List Text) : Command → Dialogue
  | say => withLiterals args fun vs => .say vs fun
    | .error e => failed "say" e
    | .ok () => writes (if s.noNewline then [] else ["\n"])
  | index => withLiterals args fun vs => replied "index" (Builtin.indexAction vs idle) fun r =>
    lineThen r.value <|
      match r.arguments with
      | [vec, _, _] => lineThen vec (.stop (.ok ()))
      | _ => .stop (.ok ())
  | len => withLiterals args fun vs => replied "len" (Builtin.lenAction vs idle) fun r =>
    lineThen r.value (.stop (.ok ()))
  | ask => .ask (args.map .str) fun
    | .error e => failed "ask" e
    | .ok line => lineThen (.str line) (.stop (.ok ()))
  | list => writes (Text.ofString "Available builtins:\n" ::
      (ofPrinter ⟨.plain, false⟩).list.map listLine)
  | version => writes [versionText ++ [10]]
  | script shell => writes (m.script shell (!s.noDescriptions))
  | program => writes (m.usage program args)
  | help => writes (m.usage help args)
  | completion => writes (m.usage completion args)

variable {m : Manual} {p : Printer}

theorem perform_writes (ts : List Text) (c : Console) :
    (writes ts).perform p c = (.ok (), writeAll ts c) := by
  induction ts generalizing c with
  | nil => rfl
  | cons t ts ih => exact ih _

theorem perform_lineThen (v : Value) (next : Dialogue) (c : Console) :
    (lineThen v next).perform p c =
      match sayLine p v c with
      | (.error e, c) => (.error e, c)
      | (.ok (), c) => next.perform p c := by
  unfold lineThen sayLine
  rw [perform]
  generalize p.say [v, .str "\n"] c = r
  obtain ⟨o, d⟩ := r
  cases o <;> rfl

theorem perform_lastLine (v : Value) (c : Console) :
    (lineThen v (.stop (.ok ()))).perform p c = sayLine p v c := by
  rw [perform_lineThen]
  obtain ⟨_ | ⟨⟩, d⟩ := sayLine p v c <;> rfl

/-- A call of a registered builtin with arguments that fit goes on from the reply of its action. -/
theorem andThen_call {r : Registry} {name : Text} {b : Builtin} {act : Action} {vs : List Value}
    (hfind : r.find? name = some b) (hact : b.action = some act) (hfits : b.takes vs.length = true)
    (c : Console) (next : Reply → Except Error Unit × Console) :
    andThen (r.call .live name vs c) next =
      match (act vs c).error with
      | some e => (.error e, (act vs c).console.log [Registry.failure name e])
      | none => next (act vs c) := by
  rw [Registry.call, Registry.gate_live hfind hact hfits]
  cases he : (act vs c).error <;> simp [andThen, he]

theorem perform_withLiterals (args : List Text) (next : List Value → Dialogue) (c : Console) :
    (withLiterals args next).perform p c =
      match Literal.parseAll args with
      | .error e => (.error e, c)
      | .ok vs => (next vs).perform p c := by
  unfold withLiterals
  cases Literal.parseAll args <;> rfl

/-! ### Runs are performances -/

theorem length_parseAll {args : List Text} {vs : List Value} (h : Literal.parseAll args = .ok vs) :
    vs.length = args.length :=
  (Literal.parseAll_eq_ok.mp h).length_eq.symm

theorem indexAction_console (vs : List Value) (c : Console) :
    Builtin.indexAction vs c = { Builtin.indexAction vs idle with console := c } := by
  rcases vs with _ | ⟨vec, _ | ⟨x, _ | ⟨v, _ | ⟨w, ws⟩⟩⟩⟩
  · rfl
  · rfl
  · simp only [Builtin.indexAction]
    cases Builtin.position x >>= vec.index <;> rfl
  · simp only [Builtin.indexAction]
    cases Builtin.position x >>= fun x => vec.setIndex x v <;> rfl
  · rfl

theorem lenAction_console (vs : List Value) (c : Console) :
    Builtin.lenAction vs c = { Builtin.lenAction vs idle with console := c } := by
  rcases vs with _ | ⟨v, _ | ⟨w, ws⟩⟩
  · rfl
  · simp only [Builtin.lenAction]
    cases v.length.map fun n => Value.num (.ofInt n) <;> rfl
  · rfl

theorem length_of_checkCount_say {args : List Text} (h : say.checkCount args = .ok ()) :
    1 ≤ args.length := by
  change (if args.length < 1 then _ else _) = _ at h
  split_ifs at h with hn
  omega

theorem length_of_checkCount_index {args : List Text} (h : index.checkCount args = .ok ()) :
    args.length = 2 ∨ args.length = 3 := by
  change (if args.length < 2 ∨ 3 < args.length then _ else _) = _ at h
  split_ifs at h with hn
  omega

theorem length_of_checkCount_len {args : List Text} (h : len.checkCount args = .ok ()) :
    args.length = 1 := by
  change (if args.length ≠ 1 then _ else _) = _ at h
  split_ifs at h with hn
  omega

theorem runSay_eq_perform {s : Settings} {args : List Text} (hargs : 1 ≤ args.length)
    (c : Console) : runSay (ofPrinter p) s args c = (say.dialogue m s args).perform p c := by
  rw [runSay, dialogue, perform_withLiterals]
  cases h : Literal.parseAll args with
  | error e => rfl
  | ok vs =>
    have hfits : (Builtin.say p).takes vs.length = true := by
      have := length_parseAll h
      simp [Builtin.takes, Builtin.say]
      omega
    dsimp only
    rw [andThen_call rfl rfl hfits, perform]
    generalize p.say vs c = r
    obtain ⟨_ | ⟨⟩, d⟩ := r
    · rfl
    · dsimp only
      rw [perform_writes]
      cases s.noNewline <;> rfl

theorem runIndex_eq_perform {s : Settings} {args : List Text}
    (hargs : args.length = 2 ∨ args.length = 3) (c : Console) :
    runIndex p (ofPrinter p) args c = (index.dialogue m s args).perform p c := by
  rw [runIndex, dialogue, perform_withLiterals]
  cases h : Literal.parseAll args with
  | error e => rfl
  | ok vs =>
    have hfits : Builtin.index.takes vs.length = true := index_takes (by rwa [length_parseAll h])
    dsimp only
    rw [andThen_call (find?_index p) rfl hfits, indexAction_console]
    unfold replied
    dsimp only
    cases he : (Builtin.indexAction vs idle).error with
    | some e => rfl
    | none =>
      dsimp only
      rw [perform_lineThen]
      obtain ⟨_ | ⟨⟩, d⟩ := sayLine p (Builtin.indexAction vs idle).value c
      · rfl
      · dsimp only
        generalize (Builtin.indexAction vs idle).arguments = us
        rcases us with _ | ⟨vec, _ | ⟨x, _ | ⟨v, _ | ⟨w, ws⟩⟩⟩⟩
        · rfl
        · rfl
        · rfl
        · exact (perform_lastLine vec d).symm
        · rfl

theorem runLen_eq_perform {s : Settings} {args : List Text} (hargs : args.length = 1)
    (c : Console) : runLen p (ofPrinter p) args c = (len.dialogue m s args).perform p c := by
  rw [runLen, dialogue, perform_withLiterals]
  cases h : Literal.parseAll args with
  | error e => rfl
  | ok vs =>
    have hfits : Builtin.len.takes vs.length = true := by
      rw [length_parseAll h, hargs]
      rfl
    dsimp only
    rw [andThen_call rfl rfl hfits, lenAction_console]
    unfold replied
    dsimp only
    cases he : (Builtin.lenAction vs idle).error with
    | some e => rfl
    | none => exact (perform_lastLine _ c).symm

theorem runAsk_eq_perform {s : Settings} (args : List Text) (c : Console) :
    runAsk p (ofPrinter p) args c = (ask.dialogue m s args).perform p c := by
  have hfits : (Builtin.ask p).takes (args.map Value.str).length = true := by
    simp [Builtin.takes, Builtin.ask]
  rw [runAsk, dialogue, andThen_call rfl rfl hfits, perform]
  generalize p.ask (args.map .str) c = r
  obtain ⟨_ | line, d⟩ := r
  · rfl
  · exact (perform_lastLine (.str line) d).symm

theorem listing_eq (p : Printer) :
    (ofPrinter p).list.map listLine = (ofPrinter ⟨.plain, false⟩).list.map listLine := rfl

/-- **Every run of a command is the performance of its dialogue**, whatever the printer. -/
theorem run_eq_perform {cmd : Command} {args : List Text} (h : cmd.checkCount args = .ok ())
    (m : Manual) (s : Settings) (p : Printer) (c : Console) :
    cmd.run m p (ofPrinter p) s args c = (cmd.dialogue m s args).perform p c := by
  cases cmd with
  | say => exact runSay_eq_perform (length_of_checkCount_say h) c
  | index => exact runIndex_eq_perform (length_of_checkCount_index h) c
  | len => exact runLen_eq_perform (length_of_checkCount_len h) c
  | ask => exact runAsk_eq_perform args c
  | list =>
    rw [run, listing_eq]
    exact (perform_writes _ c).symm
  | version | script | program | help | completion => exact (perform_writes _ c).symm

/-! ### The dialogues are smooth -/

theorem smooth_failed (name : Text) (e : Error) : (failed name e).Smooth := by
  refine .log ?_ (.stop _)
  unfold Registry.failure
  split <;> rfl

theorem smooth_writes (ts : List Text) : (writes ts).Smooth := by
  induction ts with
  | nil => exact .stop _
  | cons t ts ih => exact .write t ih

theorem smooth_lineThen {v : Value} (hv : v.Renderable) {next : Dialogue} (h : next.Smooth) :
    (lineThen v next).Smooth := by
  have hnewline : (Value.str "\n").Renderable := .inl ⟨.text, _, rfl⟩
  refine .say (by simpa using ⟨hv, hnewline⟩) fun o => ?_
  cases o with
  | error e => exact .stop _
  | ok u => exact h

theorem smooth_withLiterals {args : List Text} {next : List Value → Dialogue}
    (h : ∀ vs, List.Forall₂ (fun t v => Literal.parse t = .ok v) args vs → (next vs).Smooth) :
    (withLiterals args next).Smooth := by
  unfold withLiterals
  cases hp : Literal.parseAll args with
  | error e => exact .stop _
  | ok vs => exact h vs (Literal.parseAll_eq_ok.mp hp)

theorem smooth_replied {name : Text} {r : Reply} {next : Reply → Dialogue}
    (h : r.error = none → (next r).Smooth) : (replied name r next).Smooth := by
  unfold replied
  cases he : r.error with
  | some e => exact smooth_failed name e
  | none => exact h he

theorem renderable_of_forall₂ {args : List Text} {vs : List Value}
    (h : List.Forall₂ (fun t v => Literal.parse t = .ok v) args vs) : ∀ v ∈ vs, v.Renderable := by
  induction h with
  | nil => simp
  | cons hv _ ih => exact List.forall_mem_cons.mpr ⟨Literal.renderable_of_parse hv, ih⟩

theorem renderable_index {t : Text} {vec : Value} (h : Literal.parse t = .ok vec) {x : Double}
    {v : Value} (hv : vec.index x = .ok v) : v.Renderable := by
  cases ht : vec.elementType? with
  | none => rw [Value.index_of_not_vector ht] at hv; cases hv
  | some u =>
    obtain ⟨b, xs, -, rfl⟩ := Literal.parse_vector h ht
    rw [Value.index_eq_get ht] at hv
    obtain ⟨i, -, hi⟩ := Indexing.get_eq_ok.mp hv
    obtain ⟨y, -, rfl⟩ := List.mem_map.mp (List.mem_of_getElem? hi)
    exact .inl ⟨b, y, rfl⟩

theorem renderable_setIndex {t : Text} {vec : Value} (h : Literal.parse t = .ok vec) {x : Double}
    {v old after : Value} (hv : vec.setIndex x v = .ok (old, after)) :
    old.Renderable ∧ after.Renderable := by
  cases ht : vec.elementType? with
  | none => rw [Value.setIndex_of_not_vector ht] at hv; cases hv
  | some u =>
    obtain ⟨b, xs, -, rfl⟩ := Literal.parse_vector h ht
    obtain ⟨y, -, hy⟩ := Outcome.bind_eq_ok.mp hv
    obtain ⟨i, -, hi⟩ := Outcome.bind_eq_ok.mp hy
    obtain ⟨z, -, hz⟩ := Outcome.bind_eq_ok.mp hi
    obtain ⟨rfl, rfl⟩ := Prod.mk.inj (Except.ok.inj hz)
    have hafter : Literal.Filled b (xs.set i y) .array _ := .array
    exact ⟨.inl ⟨b, z, rfl⟩, hafter.renderable⟩

theorem smooth_index {args : List Text} (h : args.length = 2 ∨ args.length = 3) (s : Settings) :
    (index.dialogue m s args).Smooth := by
  refine smooth_withLiterals fun vs hvs => smooth_replied fun he => ?_
  have hlen := hvs.length_eq
  rcases vs with _ | ⟨vec, _ | ⟨x, _ | ⟨v, _ | ⟨w, ws⟩⟩⟩⟩
  · simp only [List.length_nil] at hlen
    omega
  · simp only [List.length_cons, List.length_nil] at hlen
    omega
  · obtain ⟨a, as, ha, -, rfl⟩ := List.forall₂_cons_right_iff.mp hvs
    simp only [Builtin.indexAction] at he ⊢
    cases hr : Builtin.position x >>= vec.index with
    | error e => simp [hr, Builtin.answer] at he
    | ok old =>
      obtain ⟨pos, -, hold⟩ := Outcome.bind_eq_ok.mp hr
      exact smooth_lineThen (renderable_index ha hold) (.stop _)
  · obtain ⟨a, as, ha, -, rfl⟩ := List.forall₂_cons_right_iff.mp hvs
    simp only [Builtin.indexAction] at he ⊢
    cases hr : Builtin.position x >>= fun x => vec.setIndex x v with
    | error e => simp [hr] at he
    | ok r =>
      obtain ⟨old, after⟩ := r
      obtain ⟨pos, -, hset⟩ := Outcome.bind_eq_ok.mp hr
      obtain ⟨hold, hafter⟩ := renderable_setIndex ha hset
      exact smooth_lineThen hold (smooth_lineThen hafter (.stop _))
  · simp only [List.length_cons] at hlen
    omega

theorem smooth_len {args : List Text} (h : args.length = 1) (s : Settings) :
    (len.dialogue m s args).Smooth := by
  refine smooth_withLiterals fun vs hvs => smooth_replied fun he => ?_
  obtain ⟨v, rfl⟩ := List.length_eq_one_iff.mp (hvs.length_eq.symm.trans h)
  simp only [Builtin.lenAction] at he ⊢
  cases hn : v.length with
  | error e => simp [hn, Builtin.answer, Except.map] at he
  | ok n => exact smooth_lineThen (.inl ⟨.double, .ofInt n, rfl⟩) (.stop _)

/-- **All dialogues of commands are smooth.** -/
theorem smooth_dialogue {cmd : Command} {args : List Text} (h : cmd.checkCount args = .ok ())
    (m : Manual) (s : Settings) : (cmd.dialogue m s args).Smooth := by
  cases cmd with
  | say =>
    refine smooth_withLiterals fun vs hvs => .say (renderable_of_forall₂ hvs) fun o => ?_
    cases o with
    | error e => exact smooth_failed _ e
    | ok u => exact smooth_writes _
  | index => exact smooth_index (length_of_checkCount_index h) s
  | len => exact smooth_len (length_of_checkCount_len h) s
  | ask =>
    have hprompt : ∀ v ∈ args.map Value.str, v.Renderable :=
      List.forall_mem_map.mpr fun t _ => .inl ⟨.text, t, rfl⟩
    refine .ask hprompt fun o => ?_
    cases o with
    | error e => exact smooth_failed _ e
    | ok line => exact smooth_lineThen (.inl ⟨.text, line, rfl⟩) (.stop _)
  | list | version | script | program | help | completion => exact smooth_writes _

end Command

end Colloquy
