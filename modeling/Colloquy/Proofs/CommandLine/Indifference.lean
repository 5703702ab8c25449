import Colloquy.Proofs.CommandLine.Dialogue

/-!
# Strictness and the log make no difference

Whether the printer is strict and what the log shows changes nothing else about a run.  Command
lines are compared with and without flags for strictness and for the level of the log (`Neutral`):

* `Flag.read_neutral`: reading such flags changes only those two settings.
* `Flag.read_akin`: settings that differ only in them (`Settings.Akin`) are changed alike by all
  other arguments, and the same arguments are at fault.
* `Flag.Skipped.locate_append`: the flags are no words, so the same subcommand is found.
* `Invocation.Akin.run`: invocations that differ only in them run alike, since a run is the
  performance of a smooth dialogue.
-/

namespace Colloquy

/-- Whether a setting names a level. -/
def Level.IsSetting (n : Text) : Prop := ∃ l, ofSetting n = .ok l

/-- The settings with another strictness and another level of the log. -/
def Settings.retuned (s : Settings) (strict : Bool) (n : Text) : Settings :=
  { s with strict := strict, logLevel := n }

/-- **Settings that differ at most in strictness and in the level of the log**.  Where the level
differs, both settings name one. -/
def Settings.Akin (s t : Settings) : Prop :=
  ∃ strict n, t = s.retuned strict n ∧
    (n = s.logLevel ∨ Level.IsSetting s.logLevel ∧ Level.IsSetting n)

/-- Outcomes that are the same error or related results. -/
def Matched {ε α : Type} (R : α → α → Prop) (x y : Except ε α) : Prop :=
  (∃ e, x = .error e ∧ y = .error e) ∨ ∃ a b, x = .ok a ∧ y = .ok b ∧ R a b

/-- **Flags for strictness and for the level of the log.** -/
inductive Neutral : List Text → Prop
  | nil : Neutral []
  | strict {fs : List Text} (h : Neutral fs) : Neutral ("--strict" :: fs)
  | strictIs {w : Text} {b : Bool} {fs : List Text} (hw : Flag.truth? w = some b)
      (h : Neutral fs) : Neutral (("--strict=" ++ w) :: fs)
  | level {w : Text} {fs : List Text} (hw : Level.IsSetting w) (h : Neutral fs) :
      Neutral ("--log-level" :: w :: fs)
  | levelIs {w : Text} {fs : List Text} (hw : Level.IsSetting w) (h : Neutral fs) :
      Neutral (("--log-level=" ++ w) :: fs)

example : Neutral ["--log-level=Trace", "--strict", "--log-level", "warn", "--strict=F"] :=
  .levelIs ⟨.trace, rfl⟩ (.strict (.level ⟨.warning, rfl⟩ (.strictIs rfl .nil)))

/-- **A command takes flags after these arguments**: there are none, or they are words and its flags
may follow them. -/
def Command.TakesFlagsAfter (cmd : Command) (ws : List Text) : Prop :=
  ws = [] ∨ cmd.interspersed = true ∧ ∀ w ∈ ws, Invocation.Positional w

/-! ### Reading arguments into akin settings -/

namespace Flag

variable {s t : Settings}

theorem set_akin (h : s.Akin t) (f : Flag) (v : Text) :
    Matched Settings.Akin (f.set v s) (f.set v t) := by
  obtain ⟨strict, n, rfl, hn⟩ := h
  unfold set
  by_cases hf : f.setting = .logLevel
  · rw [if_pos hf, if_pos hf]
    exact .inr ⟨_, _, rfl, rfl, strict, v, rfl, .inl rfl⟩
  · rw [if_neg hf, if_neg hf]
    cases truth? v with
    | none => exact .inl ⟨_, rfl, rfl⟩
    | some b => cases f.setting <;> exact .inr ⟨_, _, rfl, rfl, _, n, rfl, hn⟩

theorem setGroup_akin (flags : List Flag) (g : Text) (h : s.Akin t) :
    Matched Settings.Akin (setGroup flags g s) (setGroup flags g t) := by
  induction g generalizing s t with
  | nil => exact .inr ⟨s, t, rfl, rfl, h⟩
  | cons l g ih =>
    unfold setGroup
    by_cases htest : (Text.ofString "test.").isPrefixOf (l :: g)
    · rw [if_pos htest, if_pos htest]
      exact .inr ⟨s, t, rfl, rfl, h⟩
    · rw [if_neg htest, if_neg htest]
      cases lettered? flags l with
      | none => exact .inl ⟨_, rfl, rfl⟩
      | some f =>
        dsimp only
        split
        · exact set_akin h f _
        · obtain ⟨e, hs, ht⟩ | ⟨s', t', hs, ht, h'⟩ := set_akin h f "true"
          · rw [hs, ht]
            exact .inl ⟨e, rfl, rfl⟩
          · rw [hs, ht]
            exact ih h'

/-- What is read from the same arguments into akin settings. -/
def ReadAkin (x y : Except UsageError (Settings × List Text)) : Prop :=
  Matched (fun r r' => r.1.Akin r'.1 ∧ r.2 = r'.2) x y

theorem ReadAkin.cons {x y : Except UsageError (Settings × List Text)} (h : ReadAkin x y)
    (a : Text) : ReadAkin (x.map fun r => (r.1, a :: r.2)) (y.map fun r => (r.1, a :: r.2)) := by
  obtain ⟨e, rfl, rfl⟩ | ⟨r, r', rfl, rfl, hakin, hr⟩ := h
  · exact .inl ⟨e, rfl, rfl⟩
  · exact .inr ⟨_, _, rfl, rfl, hakin, congrArg (a :: ·) hr⟩

/-- What is read after a flag goes on from akin settings, or ends with the same fault. -/
theorem ReadAkin.after {next : Settings → Except UsageError (Settings × List Text)}
    (hnext : ∀ {s t : Settings}, s.Akin t → ReadAkin (next s) (next t))
    {x y : Except UsageError Settings} : Matched Settings.Akin x y → ReadAkin
      (match x with
        | .ok s => next s
        | .error e => .error e)
      (match y with
        | .ok s => next s
        | .error e => .error e) := by
  rintro (⟨e, rfl, rfl⟩ | ⟨s, t, rfl, rfl, h⟩)
  · exact .inl ⟨e, rfl, rfl⟩
  · exact hnext h

/-- **All arguments change akin settings alike.** -/
theorem read_akin (flags : List Flag) (interspersed : Bool) (args : List Text) (h : s.Akin t) :
    ReadAkin (read flags interspersed args s) (read flags interspersed args t) := by
  -- on the number of arguments, since a flag may take the next one as its value
  induction hn : args.length using Nat.strong_induction_on generalizing args s t with
  | _ n ih =>
  have hrest {rest : List Text} (hlt : rest.length < n) {s t : Settings} (h : s.Akin t) :
      ReadAkin (read flags interspersed rest s) (read flags interspersed rest t) :=
    ih _ hlt rest h rfl
  rcases args with _ | ⟨a, rest⟩
  · exact .inr ⟨(s, []), (t, []), rfl, rfl, h, rfl⟩
  · have hlt : rest.length < n := by simp [← hn]
    unfold read
    by_cases hword : !dashed a || a.length == 1
    · rw [if_pos hword, if_pos hword]
      cases interspersed with
      | false => exact .inr ⟨_, _, rfl, rfl, h, rfl⟩
      | true => exact (hrest hlt h).cons a
    · rw [if_neg hword, if_neg hword]
      by_cases hend : a = "--"
      · rw [if_pos hend, if_pos hend]
        exact .inr ⟨(s, rest), (t, rest), rfl, rfl, h, rfl⟩
      · rw [if_neg hend, if_neg hend]
        by_cases hlong : a[1]? = some 45
        · rw [if_pos hlong, if_pos hlong]
          obtain ⟨name, value?⟩ := splitValue (a.drop 2)
          dsimp only
          split
          · exact .inl ⟨_, rfl, rfl⟩
          · rcases named? flags name with _ | f
            · exact .inl ⟨_, rfl, rfl⟩
            · rcases value? with _ | v
              · dsimp only
                split
                · exact .after (hrest hlt) (set_akin h f "true")
                · rcases rest with _ | ⟨v, rest⟩
                  · exact .inl ⟨_, rfl, rfl⟩
                  · exact .after (hrest (Nat.lt_of_succ_lt hlt)) (set_akin h f v)
              · exact .after (hrest hlt) (set_akin h f v)
        · rw [if_neg hlong, if_neg hlong]
          exact .after (hrest hlt) (setGroup_akin flags _ h)

/-! ### Neutral flags -/

theorem splitValue_of_not_mem {n : Text} (h : 61 ∉ n) : splitValue n = (n, none) := by
  have hall : n.takeWhile (· != 61) = n := List.takeWhile_eq_self_iff.mpr (by grind)
  simp [splitValue, hall]

theorem splitValue_append {n : Text} (h : 61 ∉ n) (w : Text) :
    splitValue (n ++ 61 :: w) = (n, some w) := by
  have hall : (n ++ 61 :: w).takeWhile (· != 61) = n := by
    rw [List.takeWhile_append_of_pos (by grind)]
    simp
  simp [splitValue, hall]

/-- **A name by which a flag can be given**: not empty, no dash in front, no equals sign. -/
def IsName (n : Text) : Prop := n.isEmpty = false ∧ dashed n = false ∧ 61 ∉ n

instance (n : Text) : Decidable (IsName n) := inferInstanceAs (Decidable (_ ∧ _))

theorem dashes_ne {b : Text} (hb : b ≠ []) : (45 :: 45 :: b : Text) ≠ "--" := by
  intro h
  exact hb (List.cons.inj (List.cons.inj h).2).2

section Named
variable {flags : List Flag} {n : Text} (hn : IsName n) {f : Flag} (hf : named? flags n = some f)
  {w : Text} {s' : Settings} (interspersed : Bool) (rest : List Text)
include hn hf

theorem read_valued (hset : f.set w s = .ok s') :
    read flags interspersed ((45 :: 45 :: (n ++ 61 :: w)) :: rest) s =
      read flags interspersed rest s' := by
  obtain ⟨hempty, hdashed, hequals⟩ := hn
  have hends := dashes_ne (b := n ++ 61 :: w) (by simp)
  rw [read, if_neg (by simp [dashed]), if_neg hends]
  simp [splitValue_append hequals, hempty, hdashed, hf, hset]

theorem read_truth (htruth : f.isTruth = true) (hset : f.set "true" s = .ok s') :
    read flags interspersed ((45 :: 45 :: n) :: rest) s = read flags interspersed rest s' := by
  obtain ⟨hempty, hdashed, hequals⟩ := hn
  have hends := dashes_ne (b := n) (by rintro rfl; cases hempty)
  rw [read, if_neg (by simp [dashed]), if_neg hends]
  simp [splitValue_of_not_mem hequals, hempty, hdashed, hf, htruth, hset]

theorem read_next (htruth : f.isTruth = false) (hset : f.set w s = .ok s') :
    read flags interspersed ((45 :: 45 :: n) :: w :: rest) s = read flags interspersed rest s' := by
  obtain ⟨hempty, hdashed, hequals⟩ := hn
  have hends := dashes_ne (b := n) (by rintro rfl; cases hempty)
  rw [read, if_neg (by simp [dashed]), if_neg hends]
  simp [splitValue_of_not_mem hequals, hempty, hdashed, hf, htruth, hset]

end Named

theorem named?_strict (cmd : Command) :
    named? cmd.flags "strict" = some ⟨.strict, "strict", none⟩ := by
  cases cmd <;> rfl

theorem named?_logLevel (cmd : Command) :
    named? cmd.flags "log-level" = some ⟨.logLevel, "log-level", none⟩ := by
  cases cmd <;> rfl

/-- **Reading neutral flags** changes strictness and the level of the log, and nothing else. -/
theorem read_neutral {fs : List Text} (h : Neutral fs) (cmd : Command) (interspersed : Bool)
    (args : List Text) (hs : Level.IsSetting s.logLevel) :
    ∃ strict n, Level.IsSetting n ∧ read cmd.flags interspersed (fs ++ args) s =
      read cmd.flags interspersed args (s.retuned strict n) := by
  have hstrict : IsName "strict" := by decide
  have hlevel : IsName "log-level" := by decide
  induction h generalizing s with
  | nil => exact ⟨s.strict, s.logLevel, hs, rfl⟩
  | @strict fs h ih =>
    obtain ⟨strict, n, hn, hread⟩ := ih (s := { s with strict := true }) hs
    refine ⟨strict, n, hn, Eq.trans ?_ hread⟩
    exact read_truth hstrict (named?_strict cmd) interspersed _ rfl rfl
  | @strictIs w b fs hw h ih =>
    obtain ⟨strict, n, hn, hread⟩ := ih (s := { s with strict := b }) hs
    refine ⟨strict, n, hn, Eq.trans ?_ hread⟩
    exact read_valued hstrict (named?_strict cmd) interspersed _ (by simp [set, hw])
  | @level w fs hw h ih =>
    obtain ⟨strict, n, hn, hread⟩ := ih (s := { s with logLevel := w }) hw
    refine ⟨strict, n, hn, Eq.trans ?_ hread⟩
    exact read_next hlevel (named?_logLevel cmd) interspersed _ rfl rfl
  | @levelIs w fs hw h ih =>
    obtain ⟨strict, n, hn, hread⟩ := ih (s := { s with logLevel := w }) hw
    refine ⟨strict, n, hn, Eq.trans ?_ hread⟩
    exact read_valued hlevel (named?_logLevel cmd) interspersed _ rfl

/-- Neutral flags may be added wherever a command takes flags. -/
theorem read_inserted {cmd : Command} {ws : List Text} (hws : cmd.TakesFlagsAfter ws)
    {fs : List Text} (h : Neutral fs) (args : List Text) (hs : Level.IsSetting s.logLevel) :
    ReadAkin (read cmd.flags cmd.interspersed (ws ++ args) s)
      (read cmd.flags cmd.interspersed (ws ++ (fs ++ args)) s) := by
  have hfront : ReadAkin (read cmd.flags cmd.interspersed args s)
      (read cmd.flags cmd.interspersed (fs ++ args) s) := by
    obtain ⟨strict, n, hn, hread⟩ := read_neutral h cmd cmd.interspersed args hs
    rw [hread]
    exact read_akin cmd.flags cmd.interspersed args ⟨strict, n, rfl, .inr ⟨hs, hn⟩⟩
  rcases hws with rfl | ⟨hcmd, hws⟩
  · exact hfront
  · rw [hcmd] at hfront ⊢
    induction ws with
    | nil => exact hfront
    | cons w ws ih =>
      obtain ⟨hw, hws⟩ := List.forall_mem_cons.mp hws
      have hcons (as : List Text) : read cmd.flags true (w :: as) s =
          (read cmd.flags true as s).map fun r => (r.1, w :: r.2) := by
        rw [read, if_pos hw.not_flag, if_pos rfl]
      rw [List.cons_append, List.cons_append, hcons, hcons]
      exact (ih hws).cons w

/-! ### Finding the command behind neutral flags -/

/-- Flags and values of flags, as the search for a subcommand tells them. -/
inductive Skipped : List Text → Prop
  | nil : Skipped []
  | flag {a : Text} {fs : List Text} (hends : a ≠ "--") (hdashed : dashed a = true)
      (htakes : takesNext shared a = false) (h : Skipped fs) : Skipped (a :: fs)
  | valued {a w : Text} {fs : List Text} (hends : a ≠ "--") (htakes : takesNext shared a = true)
      (h : Skipped fs) : Skipped (a :: w :: fs)

theorem takesNext_append {flags : List Flag} {a : Text} (h : 61 ∈ a) (w : Text) :
    takesNext flags (a ++ w) = false := by
  have hequals : (a ++ w).contains 61 = true := List.contains_iff_mem.mpr (List.mem_append_left w h)
  rw [takesNext, hequals]
  simp

theorem skipped_of_neutral {fs : List Text} (h : Neutral fs) : Skipped fs := by
  induction h with
  | nil => exact .nil
  | strict h ih => exact .flag (by decide) rfl (by decide) ih
  | strictIs hw h ih =>
    exact .flag (dashes_ne (List.cons_ne_nil _ _)) rfl (takesNext_append (by decide) _) ih
  | level hw h ih => exact .valued (by decide) (by decide) ih
  | levelIs hw h ih =>
    exact .flag (dashes_ne (List.cons_ne_nil _ _)) rfl (takesNext_append (by decide) _) ih

namespace Skipped

variable {fs : List Text} (h : Skipped fs) (args : List Text)
include h

theorem words_append : words shared (fs ++ args) = words shared args := by
  induction h with
  | nil => rfl
  | @flag a fs hends hdashed htakes h ih =>
    rw [List.cons_append, words.eq_def]
    simpa [hends, htakes, hdashed] using ih
  | @valued a w fs hends htakes h ih =>
    rw [List.cons_append, List.cons_append, words.eq_def, ← ih]
    -- where nothing follows the value, it is not even looked at
    cases fs ++ args with
    | nil => simp [hends, htakes, words]
    | cons b rest => simp [hends, htakes]

theorem dropWord_append (w : Text) :
    dropWord shared w (fs ++ args) = fs ++ dropWord shared w args := by
  induction h with
  | nil => rfl
  | @flag a fs hends hdashed htakes h ih =>
    rw [List.cons_append, dropWord.eq_def]
    simp [hends, htakes, hdashed, ih]
  | @valued a v fs hends htakes h ih =>
    rw [List.cons_append, List.cons_append, dropWord.eq_def]
    simp [hends, htakes, ih]

theorem enter_append (cmd : Command) (w : Text) :
    cmd.enter w (fs ++ args) = ((cmd.enter w args).1, fs ++ (cmd.enter w args).2) := by
  unfold Command.enter
  cases cmd.subcommands.find? (·.name == w) with
  | none => rfl
  | some d => simp only [h.dropWord_append]

theorem locate_append :
    Command.locate (fs ++ args) = (Command.locate args).map fun r => (r.1, fs ++ r.2) := by
  unfold Command.locate
  rw [h.words_append]
  cases words shared args with
  | nil => rfl
  | cons w ws =>
    simp only [h.enter_append]
    -- the flags stay in front of what is left, where a subcommand is looked for once more
    generalize Command.program.enter w args = r
    obtain ⟨cmd, rest⟩ := r
    cases cmd with
    | program => rfl
    | say | index | len | ask | list | version | help | completion | script =>
      dsimp only
      rw [h.words_append]
      cases words shared rest with
      | nil => rfl
      | cons v vs => exact congrArg Except.ok (h.enter_append rest _ v)

end Skipped

end Flag

/-! ### Akin invocations -/

/-- **Runs that differ at most in their logs.** -/
structure Run.Agrees (r r' : Run) : Prop where
  error : r.error = r'.error
  output : r.output = r'.output
  input : r.console.input = r'.console.input

theorem Run.Agrees.refl (r : Run) : r.Agrees r := ⟨rfl, rfl, rfl⟩

namespace Invocation

/-- **Invocations that differ at most in strictness and in the level of the log.** -/
structure Akin (i j : Invocation) : Prop where
  command : i.command = j.command
  settings : i.settings.Akin j.settings
  arguments : i.arguments = j.arguments

variable (m : Manual)

theorem run_of_help {i : Invocation} (hhelp : i.isHelp = true) (c : Console) :
    i.run m c = ⟨none, Command.writeAll (m.usage i.command i.arguments) c, .warning⟩ :=
  if_pos hhelp

section Refused
variable {i : Invocation} (hhelp : i.isHelp = false) (c : Console)
include hhelp

theorem run_of_miscount {e : UsageError} (hcount : i.command.checkCount i.arguments = .error e) :
    i.run m c = ⟨some (.usage e), c, .warning⟩ := by
  simp [run, hhelp, hcount]

theorem run_of_badLevel (hcount : i.command.checkCount i.arguments = .ok ()) {e : Error}
    (hlevel : Level.ofSetting i.settings.logLevel = .error e) :
    i.run m c = ⟨some e, c, .warning⟩ := by
  simp [run, hhelp, hcount, hlevel]

end Refused

theorem dialogue_retuned (cmd : Command) (s : Settings) (args : List Text) (strict : Bool)
    (n : Text) : cmd.dialogue m (s.retuned strict n) args = cmd.dialogue m s args := by
  cases cmd <;> rfl

/-- **One run for all strictness and all levels**: a command that is run at all ends in one way, and
logs only what is for debugging. -/
theorem exists_run {cmd : Command} {s : Settings} {args : List Text}
    (hhelp : (⟨cmd, s, args⟩ : Invocation).isHelp = false) (hcount : cmd.checkCount args = .ok ())
    (c : Console) :
    ∃ (error : Option Error) (c' : Console) (new : List Entry), (∀ e ∈ new, e.level = .debug) ∧
      ∀ strict n level, Level.ofSetting n = .ok level →
        (⟨cmd, s.retuned strict n, args⟩ : Invocation).run m c =
          ⟨error, { c' with entries := c.entries ++
            (configured (s.retuned strict n) :: new) }, level⟩ := by
  -- the printer differs in strictness only, and the console in the entry about the settings
  obtain ⟨o, c', new, hnew, hperform⟩ :=
    (Command.smooth_dialogue hcount m s).perform (printer s).style c
  refine ⟨match o with
    | .error e => some e
    | .ok () => none, c', new, hnew, fun strict n level hlevel => ?_⟩
  have h := hperform strict (c.entries ++ [configured (s.retuned strict n)])
  rw [← dialogue_retuned m cmd s args strict n, ← Command.run_eq_perform hcount,
    List.append_assoc] at h
  rcases o with e | ⟨⟩
  · exact run_of_error (i := ⟨cmd, s.retuned strict n, args⟩) hhelp hcount hlevel h
  · exact run_of_ok (i := ⟨cmd, s.retuned strict n, args⟩) hhelp hcount hlevel h

/-- **Akin invocations run alike.** -/
theorem Akin.run {i j : Invocation} (h : i.Akin j) (c : Console) :
    (i.run m c).Agrees (j.run m c) := by
  obtain ⟨cmd, s, args⟩ := i
  obtain ⟨_, _, _⟩ := j
  obtain ⟨rfl, ⟨strict, n, rfl, hn⟩, rfl⟩ := h
  set j : Invocation := ⟨cmd, s.retuned strict n, args⟩ with hj
  cases hhelp : (⟨cmd, s, args⟩ : Invocation).isHelp with
  | true =>
    have hhelp' : j.isHelp = true := hhelp
    rw [run_of_help m hhelp, run_of_help m hhelp']
    exact .refl _
  | false =>
    have hhelp' : j.isHelp = false := hhelp
    cases hcount : cmd.checkCount args with
    | error e =>
      rw [run_of_miscount m hhelp c hcount, run_of_miscount m hhelp' c hcount]
      exact .refl _
    | ok u =>
      obtain ⟨error, c', new, -, hrun⟩ := exists_run m hhelp hcount c
      cases hlevel : Level.ofSetting s.logLevel with
      | error e =>
        -- no level is named, so the two settings of it are the same
        have hlevel' : Level.ofSetting n = .error e := by
          rcases hn with rfl | ⟨⟨l, hl⟩, -⟩
          · exact hlevel
          · rw [hlevel] at hl
            cases hl
        rw [run_of_badLevel m hhelp c hcount hlevel, run_of_badLevel m hhelp' c hcount hlevel']
        exact .refl _
      | ok level =>
        obtain ⟨level', hlevel'⟩ : Level.IsSetting n := by
          rcases hn with rfl | ⟨-, hn⟩
          · exact ⟨level, hlevel⟩
          · exact hn
        have hi : (⟨cmd, s, args⟩ : Invocation).run m c = _ := hrun s.strict s.logLevel level hlevel
        rw [hi, hj, hrun strict n level' hlevel']
        exact ⟨rfl, rfl, rfl⟩

/-- Where the same command is found, neutral flags among its own make akin invocations. -/
theorem parse_inserted {as as' : List Text} {cmd : Command} {ws fs args : List Text}
    (hfound : Command.locate as = .ok (cmd, ws ++ args))
    (hfound' : Command.locate as' = .ok (cmd, ws ++ (fs ++ args))) (hws : cmd.TakesFlagsAfter ws)
    (h : Neutral fs) : Matched Akin (parse as) (parse as') := by
  have hs : Level.IsSetting ({ } : Settings).logLevel := ⟨.warning, rfl⟩
  simp only [parse, hfound, hfound']
  obtain ⟨e, hx, hy⟩ | ⟨r, r', hx, hy, hakin, hr⟩ := Flag.read_inserted hws h args hs
  · rw [hx, hy]
    exact .inl ⟨e, rfl, rfl⟩
  · rw [hx, hy]
    exact .inr ⟨_, _, rfl, rfl, rfl, hakin, hr⟩

theorem parse_neutral {fs : List Text} (h : Neutral fs) (args : List Text) :
    Matched Akin (parse args) (parse (fs ++ args)) := by
  have hlocate := (Flag.skipped_of_neutral h).locate_append args
  cases hfound : Command.locate args with
  | error e =>
    rw [hfound] at hlocate
    refine .inl ⟨e, ?_, ?_⟩
    · rw [parse, hfound]
    · rw [parse, hlocate]
      rfl
  | ok r =>
    rw [hfound] at hlocate
    obtain ⟨cmd, rest⟩ := r
    have hfound' : Command.locate (fs ++ args) = .ok (cmd, [] ++ (fs ++ rest)) := hlocate
    exact parse_inserted hfound hfound' (.inl rfl) h

end Invocation

theorem runCommandLine_agrees (m : Manual) {as as' : List Text}
    (h : Matched Invocation.Akin (Invocation.parse as) (Invocation.parse as')) (c : Console) :
    (runCommandLine m as c).Agrees (runCommandLine m as' c) := by
  unfold runCommandLine
  obtain ⟨e, hx, hy⟩ | ⟨i, j, hx, hy, hakin⟩ := h
  · rw [hx, hy]
    exact .refl _
  · rw [hx, hy]
    exact hakin.run m c

/-! ### The log -/

theorem Level.shows_debug {l : Level} : l.shows .debug = true ↔ l = .debug ∨ l = .trace := by
  cases l <;> decide

theorem Entry.line_ne_nil (e : Entry) : e.line ≠ [] := by
  have hend : (Text.ofString "\n") ≠ [] := by decide
  exact List.append_ne_nil_of_right_ne_nil _ hend

/-- A log of entries for debugging shows something only to those who debug. -/
theorem Log.text_ne_nil_iff {e : Entry} {es : List Entry} (h : ∀ e' ∈ e :: es, e'.level = .debug)
    (l : Level) : Log.text l (e :: es) ≠ [] ↔ l = .debug ∨ l = .trace := by
  rw [← Level.shows_debug]
  constructor
  · intro htext
    by_contra hl
    have hnone : (e :: es).filter (fun e => l.shows e.level) = [] :=
      List.filter_eq_nil_iff.mpr fun e' he' => by rwa [h e' he']
    exact htext (by rw [Log.text, hnone]; rfl)
  · intro hl
    have hfirst : l.shows e.level = true := by rwa [h e List.mem_cons_self]
    rw [Log.text, List.filter_cons, if_pos hfirst, List.flatMap_cons]
    exact List.append_ne_nil_of_left_ne_nil e.line_ne_nil _

theorem Command.entries_writeAll (ts : List Text) (c : Console) :
    (writeAll ts c).entries = c.entries := by
  induction ts generalizing c with
  | nil => rfl
  | cons t ts ih => exact ih _

/-- **A command is run at a level for debugging.** -/
structure Invocation.Debugs (i : Invocation) : Prop where
  not_help : i.isHelp = false
  count : i.command.checkCount i.arguments = .ok ()
  level : ∃ l, Level.ofSetting i.settings.logLevel = .ok l ∧ (l = .debug ∨ l = .trace)

theorem Invocation.log_ne_nil_iff (m : Manual) (i : Invocation) {c : Console}
    (hc : c.entries = []) : (i.run m c).log ≠ [] ↔ i.Debugs := by
  have hsilent (error : Option Error) {d : Console} (hd : d.entries = c.entries) :
      (Run.mk error d .warning).log = [] := by
    rw [Run.log, hd, hc]
    rfl
  cases hhelp : i.isHelp with
  | true =>
    rw [run_of_help m hhelp]
    exact ⟨fun h => absurd (hsilent none (Command.entries_writeAll _ c)) h,
      fun h => by simp [h.not_help] at hhelp⟩
  | false =>
    cases hcount : i.command.checkCount i.arguments with
    | error e =>
      rw [run_of_miscount m hhelp c hcount]
      exact ⟨fun h => absurd (hsilent _ rfl) h, fun h => by simp [h.count] at hcount⟩
    | ok u =>
      cases hlevel : Level.ofSetting i.settings.logLevel with
      | error e =>
        rw [run_of_badLevel m hhelp c hcount hlevel]
        refine ⟨fun h => absurd (hsilent _ rfl) h, fun h => ?_⟩
        obtain ⟨l, hl, -⟩ := h.level
        simp [hl] at hlevel
      | ok level =>
        obtain ⟨error, c', new, hnew, hrun⟩ := exists_run m hhelp hcount c
        have hi : i.run m c = _ := hrun i.settings.strict i.settings.logLevel level hlevel
        rw [hi, Run.log, hc, List.nil_append,
          Log.text_ne_nil_iff (List.forall_mem_cons.mpr ⟨rfl, hnew⟩)]
        refine ⟨fun hl => ⟨hhelp, hcount, level, hlevel, hl⟩, fun h => ?_⟩
        obtain ⟨l, hl, hdebug⟩ := h.level
        obtain rfl : level = l := by simpa [hlevel] using hl
        exact hdebug

theorem runCommandLine_log_ne_nil_iff (m : Manual) (args : List Text) {c : Console}
    (hc : c.entries = []) :
    (runCommandLine m args c).log ≠ [] ↔ ∃ i, Invocation.parse args = .ok i ∧ i.Debugs := by
  unfold runCommandLine
  cases Invocation.parse args with
  | error e => simp [Run.log, hc, Log.text]
  | ok i => simpa using i.log_ne_nil_iff m hc

/-! ### The main result -/

/-- **Strictness and the level of the log make no difference** to what is written, what is read and
which error ends a run.

* Flags for them may be added in front of all arguments, and wherever `say`, `index`, `len` and
  `ask` take flags.
* Wherever they stand, command lines that differ only in them run alike.
* All that commands say can be rendered: a run is the performance of a smooth dialogue.
* The log shows nothing but at a level for debugging. -/
theorem runCommandLine_indifferent (m : Manual) (args : List Text) (c : Console) :
    (∀ fs, Neutral fs → (runCommandLine m args c).Agrees (runCommandLine m (fs ++ args) c)) ∧
    (∀ cmd ∈ [Command.say, .index, .len, .ask], ∀ ws fs, cmd.TakesFlagsAfter ws → Neutral fs →
      (runCommandLine m (cmd.name :: (ws ++ args)) c).Agrees
        (runCommandLine m (cmd.name :: (ws ++ (fs ++ args))) c)) ∧
    (∀ args' i j, Invocation.parse args = .ok i → Invocation.parse args' = .ok j → i.Akin j →
      (runCommandLine m args c).Agrees (runCommandLine m args' c)) ∧
    (∀ cmd s args, Command.checkCount cmd args = .ok () → (cmd.dialogue m s args).Smooth ∧
      ∀ p c, cmd.run m p (Registry.empty.registerDefaults p).2 s args c =
        (cmd.dialogue m s args).perform p c) ∧
    (c.entries = [] → ((runCommandLine m args c).log ≠ [] ↔
      ∃ i, Invocation.parse args = .ok i ∧ i.Debugs)) := by
  refine ⟨fun fs h => ?_, fun cmd hcmd ws fs hws h => ?_, fun args' i j hi hj h => ?_,
    fun cmd s args hcount => ⟨Command.smooth_dialogue hcount m s, fun p c => ?_⟩,
    fun hc => runCommandLine_log_ne_nil_iff m args hc⟩
  · exact runCommandLine_agrees m (Invocation.parse_neutral h args) c
  · have hleaf : ∀ d ∈ [Command.say, .index, .len, .ask],
        d ∈ Command.program.subcommands ∧ d.subcommands = [] := by
      decide
    obtain ⟨hsub, hnone⟩ := hleaf cmd hcmd
    have hfound := Command.locate_name hsub hnone
    exact runCommandLine_agrees m (Invocation.parse_inserted (hfound _) (hfound _) hws h) c
  · exact runCommandLine_agrees m (.inr ⟨i, j, hi, hj, h⟩) c
  · rw [Registry.registerDefaults_empty]
    exact Command.run_eq_perform hcount m s p c

end Colloquy
