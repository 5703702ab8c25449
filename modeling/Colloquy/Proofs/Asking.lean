import Colloquy.Proofs.Saying
import Mathlib.Data.List.TakeWhile

/-!
# Asking for lines

A text is made of lines that end with a line feed, and of a remainder without one (`Lines`).  Each
reading takes the next line off the text, then the remainder, if there is any, and finds the text at
its end from then on.  `Answers` says what the reading with a given number gives, and `remaining`
what it finds.

* `readLine_remaining`: one reading gives its answer and leaves what the next one finds.
* `input_say`, `asks_ask`: a printer reads only if the prompt was said, and after it was written.
* `heard_answers`: over a run of calls, the readings are numbered one after the other.
-/

namespace Colloquy

namespace Input

/-! ### Lines -/

/-- **The lines of a text**, without the line feeds that end them, and the remainder. -/
structure Lines (t : Text) (ls : List Text) (r : Text) : Prop where
  text : t = ls.flatMap (· ++ [10]) ++ r
  line : ∀ l ∈ ls, 10 ∉ l
  remainder : 10 ∉ r

/-- `t` is `l` without the line feeds and carriage returns at its end. -/
structure Trims (l t : Text) : Prop where
  dropped : ∃ u, l = t ++ u ∧ ∀ b ∈ u, b = 10 ∨ b = 13
  last : ∀ b, t.getLast? = some b → b ≠ 10 ∧ b ≠ 13

theorem isLineEnd_iff {b : UInt8} : isLineEnd b = true ↔ b = 10 ∨ b = 13 := by
  simp [isLineEnd]

theorem trims_trimEnd (l : Text) : Trims l (l.trimEnd isLineEnd) := by
  have hsplit : l.reverse.takeWhile isLineEnd ++ l.reverse.dropWhile isLineEnd = l.reverse :=
    List.takeWhile_append_dropWhile
  refine ⟨⟨(l.reverse.takeWhile isLineEnd).reverse, ?_, ?_⟩, ?_⟩
  · rw [Text.trimEnd, ← List.reverse_append, hsplit, List.reverse_reverse]
  · intro b hb
    exact isLineEnd_iff.mp (List.mem_takeWhile_imp (List.mem_reverse.mp hb))
  · intro b hb
    rw [Text.trimEnd, List.getLast?_reverse] at hb
    have hnot : isLineEnd b = false := by
      have := List.head?_dropWhile_not isLineEnd l.reverse
      rwa [hb] at this
    rw [← not_or, ← isLineEnd_iff, hnot]
    exact Bool.false_ne_true

theorem line?_of_not_mem {t : Text} (h : 10 ∉ t) : line? t = none := by
  induction t with
  | nil => rfl
  | cons b t ih =>
    have hb : b ≠ 10 := fun hb => h (by simp [hb])
    have ht : 10 ∉ t := fun ht => h (by simp [ht])
    rw [line?, if_neg hb, ih ht]
    rfl

theorem line?_append {l : Text} (h : 10 ∉ l) (t : Text) :
    line? (l ++ [10] ++ t) = some (l ++ [10], t) := by
  induction l with
  | nil => rfl
  | cons b l ih =>
    have hb : b ≠ 10 := fun hb => h (by simp [hb])
    have hl : 10 ∉ l := fun hl => h (by simp [hl])
    change line? (b :: (l ++ [10] ++ t)) = _
    rw [line?, if_neg hb, ih hl]
    rfl

theorem exists_lines (t : Text) : ∃ ls r, Lines t ls r := by
  induction t with
  | nil => exact ⟨[], [], rfl, by simp, by simp⟩
  | cons b t ih =>
    obtain ⟨ls, r, rfl, hls, hr⟩ := ih
    by_cases hb : b = 10
    · -- the byte is a line by itself
      subst hb
      exact ⟨[] :: ls, r, rfl, by simpa using hls, hr⟩
    · -- the byte belongs to the first line, or to the remainder
      rcases ls with _ | ⟨l, ls⟩
      · exact ⟨[], b :: r, rfl, by simp, by simpa [eq_comm, hb] using hr⟩
      · have hl : 10 ∉ b :: l := by
          have := hls l (by simp)
          simpa [eq_comm, hb] using this
        refine ⟨(b :: l) :: ls, r, by simp, ?_, hr⟩
        intro m hm
        rcases List.mem_cons.mp hm with rfl | hm
        · exact hl
        · exact hls m (by simp [hm])

/-! ### Readings -/

/-- **What the reading with number `k` gives** of a text with the lines `ls` and the remainder `r`,
beyond which the error `e` is met.  Readings are numbered from zero. -/
inductive Answers (ls : List Text) (r : Text) (e : Error) : ℕ → Except Error Text → Prop
  | line {k : ℕ} {l t : Text} (hl : ls[k]? = some l) (ht : Trims (l ++ [10]) t) :
      Answers ls r e k (.ok t)
  | remainder {t : Text} (hr : r ≠ []) (he : e.cause = .endOfInput) (ht : Trims r t) :
      Answers ls r e ls.length (.ok t)
  | lost (hr : r ≠ []) (he : e.cause ≠ .endOfInput) : Answers ls r e ls.length (.error e)
  | ended {k : ℕ} (hk : ls.length < k ∨ ls.length = k ∧ r = []) : Answers ls r e k (.error e)

/-- **What the reading with number `k` finds.** -/
def remaining (ls : List Text) (r : Text) (k : ℕ) : Text :=
  (ls.drop k).flatMap (· ++ [10]) ++ if k ≤ ls.length then r else []

theorem Lines.remaining_zero {t : Text} {ls : List Text} {r : Text} (h : Lines t ls r) :
    remaining ls r 0 = t := by
  simp [remaining, h.text]

theorem remaining_length (ls : List Text) (r : Text) : remaining ls r ls.length = r := by
  simp [remaining]

theorem remaining_of_lt {ls : List Text} {k : ℕ} (h : ls.length < k) (r : Text) :
    remaining ls r k = [] := by
  simp [remaining, List.drop_eq_nil_of_le (Nat.le_of_lt h), Nat.not_le.mpr h]

theorem remaining_of_getElem? {ls : List Text} {k : ℕ} {l : Text} (h : ls[k]? = some l) (r : Text) :
    remaining ls r k = l ++ [10] ++ remaining ls r (k + 1) := by
  obtain ⟨hk, rfl⟩ := List.getElem?_eq_some_iff.mp h
  have h1 : k ≤ ls.length := by omega
  have h2 : k + 1 ≤ ls.length := by omega
  rw [remaining, remaining, List.drop_eq_getElem_cons hk, List.flatMap_cons, if_pos h1, if_pos h2,
    List.append_assoc]

theorem endsProperly_iff {i : Input} : i.endsProperly = true ↔ i.ending.cause = .endOfInput := by
  unfold endsProperly
  split
  · next h => simp [h]
  · next h => simpa using h

/-- **One reading** gives its answer, and leaves what the next one finds. -/
theorem readLine_remaining {ls : List Text} (hls : ∀ l ∈ ls, 10 ∉ l) {r : Text} (hr : 10 ∉ r)
    (e : Error) (k : ℕ) : ∃ o, Answers ls r e k o ∧
      (⟨remaining ls r k, e⟩ : Input).readLine = (o, ⟨remaining ls r (k + 1), e⟩) := by
  rcases Nat.lt_trichotomy k ls.length with hk | rfl | hk
  · have hl : ls[k]? = some ls[k] := List.getElem?_eq_getElem hk
    refine ⟨_, .line hl (trims_trimEnd _), ?_⟩
    rw [remaining_of_getElem? hl, readLine, line?_append (hls _ (List.getElem_mem hk))]
  · rw [remaining_length, remaining_of_lt (Nat.lt_succ_self _), readLine, line?_of_not_mem hr]
    by_cases hnil : r = []
    · subst hnil
      exact ⟨_, .ended (.inr ⟨rfl, rfl⟩), by simp⟩
    · by_cases he : e.cause = .endOfInput
      · have hproper : (⟨r, e⟩ : Input).endsProperly = true := endsProperly_iff.mpr he
        exact ⟨_, .remainder hnil he (trims_trimEnd r), by simp [hproper, hnil]⟩
      · have hproper : (⟨r, e⟩ : Input).endsProperly ≠ true := mt endsProperly_iff.mp he
        exact ⟨_, .lost hnil he, by simp [hproper]⟩
  · rw [remaining_of_lt hk, remaining_of_lt (Nat.lt_succ_of_lt hk)]
    exact ⟨_, .ended (.inl hk), by simp [readLine, line?]⟩

end Input

/-! ### Prompts -/

namespace Console

theorem output_write {c : Console} {t : Text} (h : (c.write t).1 = .ok ()) :
    (c.write t).2.output = c.output ++ t := by
  have hfault : c.fault c.writes.length = none := by
    cases hf : c.fault c.writes.length with
    | none => rfl
    | some e => simp [write, hf] at h
  simp [output, write, List.zipIdx_append, hfault]

theorem output_readLine (c : Console) : c.readLine.2.output = c.output := by
  unfold readLine
  split <;> rfl

end Console

namespace Printer

open Value Input

theorem input_say (p : Printer) (vs : List Value) (c : Console) :
    (p.say vs c).2.input = c.input := by
  unfold say
  split <;> rfl

/-- **What a prompt leads to.**  If it cannot be said, its error is all.  Otherwise a line is read on
the console on which the prompt was written. -/
inductive Asks (p : Printer) (vs : List Value) (c : Console) : Except Error Text × Console → Prop
  | unsaid {e : Error} {d : Console} (h : p.say vs c = (.error e, d)) (hinput : d.input = c.input) :
      Asks p vs c (.error e, d)
  | said {d : Console} {ts : List Text} (h : p.say vs c = (.ok (), d)) (hinput : d.input = c.input)
      (hts : List.Forall₂ (Renders p.style) (vs.filter (·.Renderable)) ts)
      (houtput : d.output = c.output ++ ts.flatten) : Asks p vs c d.readLine

theorem asks_ask (p : Printer) (vs : List Value) (c : Console) : Asks p vs c (p.ask vs c) := by
  have hinput := p.input_say vs c
  unfold ask
  cases hs : p.say vs c with
  | mk o d =>
    rw [hs] at hinput
    cases o with
    | error e => exact .unsaid hs hinput
    | ok u =>
      rcases compose_styles p.strict vs with ⟨e, he⟩ | ⟨ws, hws⟩
      · rw [say, he p.style] at hs
        cases hs
      · obtain ⟨ts, hts, hc⟩ := hws p.style
        rw [say, hc] at hs
        change (c.log ws).write ts.flatten = (.ok (), d) at hs
        have hout := Console.output_write (congrArg Prod.fst hs)
        rw [hs] at hout
        exact .said (by rw [say, hc]; exact hs) hinput hts hout

/-! ### Runs -/

/-- A call on a printer. -/
inductive Call where
  | say (vs : List Value)
  | ask (prompt : List Value)

/-- The console after calls. -/
def after (p : Printer) : Console → List Call → Console
  | c, [] => c
  | c, .say vs :: calls => p.after (p.say vs c).2 calls
  | c, .ask vs :: calls => p.after (p.ask vs c).2 calls

/-- **What was heard**: what the calls of `ask` gave whose prompt was said, in their order. -/
def heard (p : Printer) : Console → List Call → List (Except Error Text)
  | _, [] => []
  | c, .say vs :: calls => p.heard (p.say vs c).2 calls
  | c, .ask vs :: calls =>
    match (p.say vs c).1 with
    | .ok () => (p.ask vs c).1 :: p.heard (p.ask vs c).2 calls
    | .error _ => p.heard (p.ask vs c).2 calls

theorem heard_answers (p : Printer) {ls : List Text} (hls : ∀ l ∈ ls, 10 ∉ l) {r : Text}
    (hr : 10 ∉ r) (e : Error) {c : Console} {k : ℕ} (calls : List Call)
    (hc : c.input = some ⟨remaining ls r k, e⟩) :
    (∀ j o, (p.heard c calls)[j]? = some o → Answers ls r e (k + j) o) ∧
      (p.after c calls).input = some ⟨remaining ls r (k + (p.heard c calls).length), e⟩ := by
  induction calls generalizing c k with
  | nil => exact ⟨by simp [heard], hc⟩
  | cons call calls ih =>
    cases call with
    | say vs => exact ih (by rw [input_say, hc])
    | ask vs =>
      have hask := p.asks_ask vs c
      unfold heard after
      generalize p.ask vs c = a at hask ⊢
      cases hask with
      | unsaid h hinput =>
        rw [h]
        exact ih (hinput.trans hc)
      | @said d ts h hinput hts houtput =>
        obtain ⟨o, ho, hread⟩ := readLine_remaining hls hr e k
        have hd : d.readLine = (o, { d with input := some ⟨remaining ls r (k + 1), e⟩ }) := by
          rw [Console.readLine, hinput, hc]
          simp only [hread]
        obtain ⟨hanswers, hafter⟩ := ih (c := d.readLine.2) (k := k + 1) (by rw [hd])
        rw [h]
        refine ⟨?_, ?_⟩
        · intro j o' hj
          cases j with
          | zero =>
            obtain rfl : o = o' := by simpa [hd] using hj
            exact ho
          | succ j =>
            have := hanswers j o' (by simpa using hj)
            rwa [Nat.add_right_comm, Nat.add_assoc] at this
        · simp only [List.length_cons]
          rwa [Nat.add_right_comm, Nat.add_assoc] at hafter

theorem heard_without_input (p : Printer) {c : Console} (calls : List Call) (hc : c.input = none) :
    ∀ o ∈ p.heard c calls, o = .error .endOfInput := by
  induction calls generalizing c with
  | nil => simp [heard]
  | cons call calls ih =>
    cases call with
    | say vs => exact ih (by rw [input_say, hc])
    | ask vs =>
      have hask := p.asks_ask vs c
      unfold heard
      generalize p.ask vs c = a at hask ⊢
      cases hask with
      | unsaid h hinput =>
        rw [h]
        exact ih (hinput.trans hc)
      | @said d ts h hinput hts houtput =>
        have hd : d.readLine = (.error .endOfInput, d) := by rw [Console.readLine, hinput, hc]
        rw [h, hd]
        exact List.forall_mem_cons.mpr ⟨rfl, ih (hinput.trans hc)⟩

/-- **Asking over whole runs.**  Whatever was said and asked before, saying takes nothing off the
text to read, and asking reads only after the prompt was written.  What is heard are the lines of the
text in their order, then its remainder, and then its end. -/
theorem ask_lines_in_order (p : Printer) (c : Console) (calls : List Call) :
    let d := p.after c calls
    let heard := p.heard c calls
    (∀ vs, (p.say vs d).2.input = d.input) ∧
    (∀ vs, Asks p vs d (p.ask vs d) ∧ (p.ask vs d).2.output = (p.say vs d).2.output) ∧
    (c.input = none → ∀ o ∈ heard, o = .error .endOfInput) ∧
    ∀ i, c.input = some i → ∃ ls r, Lines i.rest ls r ∧
      (∀ k o, heard[k]? = some o → Answers ls r i.ending k o) ∧
      d.input = some ⟨remaining ls r heard.length, i.ending⟩ := by
  intro d heard
  refine ⟨fun vs => p.input_say vs d, fun vs => ⟨p.asks_ask vs d, ?_⟩,
    p.heard_without_input calls, ?_⟩
  · have hask := p.asks_ask vs d
    generalize p.ask vs d = a at hask ⊢
    cases hask with
    | unsaid h hinput => rw [h]
    | said h hinput hts houtput => rw [h, Console.output_readLine]
  · intro i hi
    obtain ⟨ls, r, hlines⟩ := exists_lines i.rest
    have hzero : c.input = some ⟨remaining ls r 0, i.ending⟩ := by
      rw [hlines.remaining_zero, hi]
    obtain ⟨hanswers, hafter⟩ := p.heard_answers hlines.line hlines.remainder i.ending calls hzero
    simp only [Nat.zero_add] at hanswers hafter
    exact ⟨ls, r, hlines, hanswers, hafter⟩

end Printer

end Colloquy
