import Colloquy.Proofs.Asking
import Mathlib.Data.List.Infix

/-!
# Lines and their terminators

A line is ended by a line feed, alone or after a carriage return; the last line of a text may have
no terminator.  `MakesUp ls t` says that the lines `ls`, each with its one terminator, make up the
text `t`.  Asking drops every carriage return at the end of a line, not only the one that belongs to
a terminator.  So what was heard makes up the text exactly if no line feed follows two carriage
returns, and no carriage return stands at the very end.

* `Answers.eq_spoken`: what a reading gives, by the lines of the text with their ends trimmed.
* `makesUp_spoken_iff`: these make up the text exactly if it is `Tidy`.
-/

namespace Colloquy

namespace Input

/-! ### Terminators -/

/-- **What ends a line**: a line feed, alone or after a carriage return. -/
def IsTerminator (u : Text) : Prop := u = [10] ∨ u = [13, 10]

/-- **Lines that make up a text**, each with its one terminator.  The last one may have none. -/
inductive MakesUp : List Text → Text → Prop
  | nil : MakesUp [] []
  | last {l : Text} (hl : 10 ∉ l) : MakesUp [l] l
  | line {l u t : Text} {ls : List Text} (hl : 10 ∉ l) (hu : IsTerminator u) (h : MakesUp ls t) :
      MakesUp (l :: ls) (l ++ u ++ t)

/-- A line without its terminator, as it is given. -/
def trimmed (l : Text) : Text := l.trimEnd isLineEnd

theorem Trims.eq_trimmed {l t : Text} (h : Trims l t) : t = trimmed l := by
  obtain ⟨⟨u, rfl, hu⟩, hlast⟩ := h
  have hdrop : u.reverse.dropWhile isLineEnd = [] :=
    List.dropWhile_eq_nil_iff.mpr fun b hb => isLineEnd_iff.mpr (hu b (List.mem_reverse.mp hb))
  rw [trimmed, Text.trimEnd, List.reverse_append, List.dropWhile_append, hdrop, List.isEmpty_nil,
    if_pos rfl]
  -- what is left ends in no such byte
  rcases List.eq_nil_or_concat t with rfl | ⟨s, b, rfl⟩
  · rfl
  · have hb := hlast b (by simp)
    have hnot : isLineEnd b = false := by simpa [isLineEnd] using hb
    simp [hnot]

theorem trimmed_concat (l : Text) : trimmed (l ++ [10]) = trimmed l := by
  simp [trimmed, Text.trimEnd, isLineEnd]

theorem exists_run {l : Text} (h : 10 ∉ l) :
    ∃ k, l = trimmed l ++ List.replicate k 13 ∧ (trimmed l).getLast? ≠ some 13 := by
  obtain ⟨⟨u, hl, hu⟩, hlast⟩ := trims_trimEnd l
  have hrun : ∀ b ∈ u, b = 13 := by
    intro b hb
    have hmem : b ∈ l := hl ▸ List.mem_append_right _ hb
    exact (hu b hb).resolve_left fun hb' => h (hb' ▸ hmem)
  refine ⟨u.length, ?_, fun h13 => (hlast 13 h13).2 rfl⟩
  rw [← List.eq_replicate_of_mem hrun]
  exact hl

theorem not_mem_trimmed {l : Text} (h : 10 ∉ l) : 10 ∉ trimmed l := by
  obtain ⟨k, hl, -⟩ := exists_run h
  intro hmem
  exact h (hl ▸ List.mem_append_left _ hmem)

/-! ### Carriage returns -/

theorem suffix_run_iff {m : Text} (h : m.getLast? ≠ some 13) (k : ℕ) :
    [13, 13] <:+ m ++ List.replicate k 13 ↔ 2 ≤ k := by
  constructor
  · rintro ⟨s, hs⟩
    by_contra hk
    obtain rfl | rfl : k = 0 ∨ k = 1 := by omega
    · rw [List.replicate_zero, List.append_nil] at hs
      exact h (by rw [← hs]; simp)
    · have heq : (s ++ [13]) ++ [13] = m ++ [13] := by simpa using hs
      exact h (by rw [← List.append_cancel_right heq]; simp)
  · intro hk
    obtain ⟨j, rfl⟩ := Nat.exists_eq_add_of_le' hk
    refine ⟨m ++ List.replicate j 13, ?_⟩
    rw [List.append_assoc, List.replicate_add]
    rfl

theorem getLast?_run_iff {m : Text} (h : m.getLast? ≠ some 13) (k : ℕ) :
    (m ++ List.replicate k 13).getLast? = some 13 ↔ k ≠ 0 := by
  cases k with
  | zero => simpa using h
  | succ k => simp [List.replicate_succ']

/-- Two carriage returns before a line feed stand at the end of the first line, or after it. -/
theorem infix_line_iff {l : Text} (h : 10 ∉ l) (t : Text) :
    [13, 13, 10] <:+: l ++ [10] ++ t ↔ [13, 13] <:+ l ∨ [13, 13, 10] <:+: t := by
  rw [List.append_assoc, List.singleton_append]
  induction l with
  | nil => simp [List.infix_cons_iff]
  | cons b l ih =>
    have hl : 10 ∉ l := fun hl => h (List.mem_cons_of_mem _ hl)
    -- at the start of the line they stand only if they are the whole line
    have hstart : [13, 13, 10] <+: b :: (l ++ 10 :: t) ↔ [13, 13] = b :: l := by
      rcases l with _ | ⟨c, _ | ⟨d, l⟩⟩
      · simp
      · simp [eq_comm]
      · have hd : (10 : UInt8) ≠ d := fun hd => hl (by simp [hd])
        simp [hd]
    rw [List.cons_append, List.infix_cons_iff, hstart, ih hl, List.suffix_cons_iff, or_assoc]

theorem getLast?_line_iff (l t : Text) :
    (l ++ [10] ++ t).getLast? = some 13 ↔ t.getLast? = some 13 := by
  rw [List.getLast?_append]
  cases t.getLast? <;> simp

/-- Two carriage returns stand before a line feed nowhere, and none stands at the very end. -/
def Tidy (t : Text) : Prop := ¬ [13, 13, 10] <:+: t ∧ t.getLast? ≠ some 13

instance (t : Text) : Decidable (Tidy t) := inferInstanceAs (Decidable (_ ∧ _))

theorem tidy_line_iff {l : Text} (h : 10 ∉ l) (t : Text) :
    Tidy (l ++ [10] ++ t) ↔ ¬ [13, 13] <:+ l ∧ Tidy t := by
  rw [Tidy, Tidy, infix_line_iff h, not_or, Ne, getLast?_line_iff, and_assoc]

theorem tidy_remainder_iff {r : Text} (h : 10 ∉ r) : Tidy r ↔ r.getLast? ≠ some 13 := by
  refine and_iff_right ?_
  intro hruns
  exact h (hruns.subset (by simp))

/-! ### What is heard of a text -/

/-- **What is given of a text** with the lines `ls` and the remainder `r` until its end is met. -/
def spoken (ls : List Text) (r : Text) : List Text :=
  ls.map trimmed ++ if r = [] then [] else [trimmed r]

/-- A line makes up its part of the text if at most one carriage return was dropped from it. -/
theorem makesUp_line_iff {l : Text} (h : 10 ∉ l) (ms : List Text) (t : Text) :
    MakesUp (trimmed l :: ms) (l ++ [10] ++ t) ↔ ¬ [13, 13] <:+ l ∧ MakesUp ms t := by
  have hm := not_mem_trimmed h
  obtain ⟨k, hl, hlast⟩ := exists_run h
  generalize trimmed l = m at *
  subst hl
  rw [suffix_run_iff hlast, Nat.not_le]
  constructor
  · intro hmakes
    generalize htext : m ++ List.replicate k 13 ++ [10] ++ t = text at hmakes
    cases hmakes with
    | last => exact absurd (htext ▸ by simp : 10 ∈ m) hm
    | @line _ u t' _ _ hu hrest =>
      have heq : List.replicate k 13 ++ (10 :: t) = u ++ t' := by simpa using htext
      -- the terminator that was consumed tells the length of the run
      rcases hu with rfl | rfl
      · rcases k with _ | k
        · exact ⟨by omega, by simp_all⟩
        · simp [List.replicate_succ] at heq
      · rcases k with _ | _ | k
        · simp at heq
        · exact ⟨by omega, by simp_all⟩
        · simp [List.replicate_succ] at heq
  · rintro ⟨hk, hrest⟩
    obtain rfl | rfl : k = 0 ∨ k = 1 := by omega
    · have := MakesUp.line hm (.inl rfl) hrest
      simpa using this
    · have := MakesUp.line hm (.inr rfl) hrest
      simpa using this

theorem makesUp_remainder_iff {r : Text} (h : 10 ∉ r) :
    MakesUp [trimmed r] r ↔ r.getLast? ≠ some 13 := by
  have hm := not_mem_trimmed h
  obtain ⟨k, hr, hlast⟩ := exists_run h
  have hrun : r.getLast? = some 13 ↔ k ≠ 0 := by
    conv_lhs => rw [hr]
    exact getLast?_run_iff hlast k
  rw [Ne, hrun, not_not]
  constructor
  · intro hmakes
    generalize htrim : trimmed r = m at *
    cases hmakes with
    | last => simpa using hr
    | line _ hu => rcases hu with rfl | rfl <;> simp at h
  · rintro rfl
    rw [List.replicate_zero, List.append_nil] at hr
    rw [← hr]
    exact .last h

/-- **What is heard makes up the text** exactly if the text is tidy. -/
theorem makesUp_spoken_iff {ls : List Text} (hls : ∀ l ∈ ls, 10 ∉ l) {r : Text} (hr : 10 ∉ r) :
    MakesUp (spoken ls r) (ls.flatMap (· ++ [10]) ++ r) ↔ Tidy (ls.flatMap (· ++ [10]) ++ r) := by
  induction ls with
  | nil =>
    by_cases hnil : r = []
    · subst hnil
      exact iff_of_true .nil (by decide)
    · rw [spoken, if_neg hnil, List.map_nil, List.flatMap_nil, List.nil_append, List.nil_append,
        makesUp_remainder_iff hr, tidy_remainder_iff hr]
  | cons l ls ih =>
    have hl := hls l List.mem_cons_self
    rw [List.flatMap_cons, List.append_assoc, tidy_line_iff hl,
      ← ih fun l hl => hls l (List.mem_cons_of_mem _ hl), ← makesUp_line_iff hl]
    rfl

/-- An answer about a text that ends properly, by what is given of the text. -/
theorem Answers.eq_spoken {ls : List Text} {r : Text} {e : Error} (he : e.cause = .endOfInput)
    {k : ℕ} {o : Except Error Text} (h : Answers ls r e k o) :
    o = (spoken ls r)[k]?.elim (.error e) .ok := by
  cases h with
  | line hl ht =>
    obtain ⟨hk, rfl⟩ := List.getElem?_eq_some_iff.mp hl
    have hk' : k < (ls.map trimmed).length := by rwa [List.length_map]
    rw [spoken, List.getElem?_append_left hk', List.getElem?_map, hl, ht.eq_trimmed,
      trimmed_concat]
    rfl
  | remainder hr _ ht => simp [spoken, hr, ht.eq_trimmed]
  | lost _ he' => exact absurd he he'
  | ended hk =>
    have hlen : (spoken ls r).length ≤ k := by
      rcases hk with hk | ⟨rfl, rfl⟩
      · rw [spoken]
        split_ifs <;> simp <;> omega
      · simp [spoken]
    rw [List.getElem?_eq_none hlen]
    rfl

end Input

namespace Printer

open Input

/-- A run that meets the end of a text has been given all that comes before. -/
theorem filterMap_of_answers {ms : List Text} {e : Error} {hs : List (Except Error Text)}
    (h : ∀ (k : ℕ) (o : Except Error Text), hs[k]? = some o → o = ms[k]?.elim (.error e) .ok)
    {e' : Error} (hend : .error e' ∈ hs) : hs.filterMap Except.toOption = ms := by
  induction ms generalizing hs with
  | nil =>
    rw [List.filterMap_eq_nil_iff]
    intro o ho
    obtain ⟨k, hk⟩ := List.getElem?_of_mem ho
    rw [h k o hk]
    rfl
  | cons m ms ih =>
    cases hs with
    | nil => cases hend
    | cons o hs =>
      obtain rfl : o = .ok m := h 0 o rfl
      have hend' : .error e' ∈ hs := by simpa using hend
      have hrest : hs.filterMap Except.toOption = ms := ih (fun k o hk => h (k + 1) o hk) hend'
      exact congrArg (m :: ·) hrest

/-- **Asking gives a text back** exactly if it is tidy.  Let a text that ends properly be read to
its end by calls of a printer.  Then the lines that were given, each with the one terminator that
was taken off the text after it, make up the text exactly if two carriage returns stand before a
line feed nowhere, and none stands at the very end. -/
theorem heard_makes_up_iff (p : Printer) {c : Console} {i : Input} (hi : c.input = some i)
    (hproper : i.ending.cause = .endOfInput) {calls : List Call} {e : Error}
    (hend : .error e ∈ p.heard c calls) :
    MakesUp ((p.heard c calls).filterMap Except.toOption) i.rest ↔ Tidy i.rest := by
  obtain ⟨ls, r, hlines⟩ := exists_lines i.rest
  have hzero : c.input = some ⟨remaining ls r 0, i.ending⟩ := by
    rw [hlines.remaining_zero, hi]
  obtain ⟨hanswers, -⟩ := p.heard_answers hlines.line hlines.remainder i.ending calls hzero
  have hspoken : (p.heard c calls).filterMap Except.toOption = spoken ls r := by
    refine filterMap_of_answers (e := i.ending) (fun k o hk => ?_) hend
    have hk' := hanswers k o hk
    rw [Nat.zero_add] at hk'
    exact hk'.eq_spoken hproper
  rw [hspoken, hlines.text]
  exact makesUp_spoken_iff hlines.line hlines.remainder

/-- A text with a terminator of each kind, and a last line without one. -/
theorem heard_makes_up_mixed :
    let p : Printer := ⟨.plain, false⟩
    let t := Text.ofString "a\n\r\nb\rc"
    let c := Console.new (some (.ofText t)) true
    let calls := List.replicate 4 (Call.ask [])
    p.heard c calls = [.ok "a", .ok [], .ok "b\rc", .error .endOfInput] ∧ Tidy t ∧
      MakesUp ["a", [], "b\rc"] t := by
  intro p t c calls
  have hheard : p.heard c calls = [.ok "a", .ok [], .ok "b\rc", .error .endOfInput] := rfl
  have htidy : Tidy t := by decide
  have hend : .error .endOfInput ∈ p.heard c calls := by rw [hheard]; simp
  have hmakes := (p.heard_makes_up_iff (i := .ofText t) rfl rfl hend).mpr htidy
  exact ⟨hheard, htidy, hmakes⟩

/-- **A carriage return is lost** that belongs to no terminator: the text has one line, which has no
terminator, but is given without its last byte. -/
theorem heard_loses_carriage_return :
    let p : Printer := ⟨.plain, false⟩
    let t := Text.ofString "a\r"
    let c := Console.new (some (.ofText t)) true
    p.heard c [.ask [], .ask []] = [.ok "a", .error .endOfInput] ∧ ¬ MakesUp ["a"] t := by
  intro p t c
  refine ⟨rfl, fun h => ?_⟩
  have hlast := (makesUp_remainder_iff (r := t) (by decide)).mp h
  exact hlast rfl

end Printer

end Colloquy
