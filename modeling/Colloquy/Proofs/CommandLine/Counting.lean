import Colloquy.Proofs.Classifying
import Colloquy.Proofs.CommandLine.Running
import Colloquy.Proofs.Number.Narrowing
import Colloquy.Proofs.SixDigits

/-!
# Lengths on the command line

`len` counts the characters of a string or the elements of a container, and says the count as it
says any number: as a double, to six significant digits.  So the text tells the length just if the
length has six digits at most before the zeros at its end (`Decimal.Short`), and does not lie beyond
the doubles.

* `Binary.denotes_text_ofInt`: the counts that are told exactly.
* `Command.runLen_counted`, `Command.runLen_refused`: the two ways in which the command ends.
-/

namespace Colloquy

/-! ### Numbers that six digits tell exactly -/

namespace Written

/-- **A text read as a decimal number**, in one of the two forms. -/
def Denotes (t : Text) (q : ℚ) : Prop := Plain t q ∨ Scientific t q

theorem Denotes.unique {t : Text} {q r : ℚ} (h : Denotes t q) (h' : Denotes t r) : q = r := by
  rcases h with h | h <;> rcases h' with h' | h'
  · exact h.unique h'
  · exact absurd h' h.not_scientific
  · exact absurd h h'.not_scientific
  · exact h.unique h'

theorem Denotes.exists_digit {t : Text} {q : ℚ} (h : Denotes t q) :
    ∃ d < 10, ∃ u, t = Text.digit d :: u := by
  have hmantissa (m : Mantissa) : ∃ d < 10, ∃ u, m.text = Text.digit d :: u := by
    obtain ⟨d, ds, hd⟩ : ∃ d ds, m.whole = d :: ds := by
      rcases m.lead with h | ⟨d, ds, h, -⟩
      · exact ⟨0, [], h⟩
      · exact ⟨d, ds, h⟩
    refine ⟨d, m.lt_ten d (by rw [hd]; exact .head _), Text.ofDigits ds ++ fractionText m.fraction, ?_⟩
    rw [Mantissa.text, hd]
    rfl
  rcases h with ⟨m, rfl, -⟩ | ⟨m, e, -, -, -, rfl, -⟩
  · exact hmantissa m
  · obtain ⟨d, hd, u, hu⟩ := hmantissa m
    exact ⟨d, hd, u ++ e.text, by rw [hu]; rfl⟩

end Written

namespace Decimal

/-- **At most six digits**, and zeros behind them. -/
def Short (n : ℕ) : Prop := ∃ m k, m < 10 ^ 6 ∧ n = m * 10 ^ k

theorem rounded_scaled {m : ℕ} (hm : 10 ^ 5 ≤ m) (hm' : m < 10 ^ 6) (k : ℤ) :
    Rounded 6 (m * 10 ^ k) m k := by
  have hmq : (10 : ℚ) ^ 5 ≤ m := by exact_mod_cast hm
  have hmq' : (m : ℚ) < 10 ^ 6 := by exact_mod_cast hm'
  have hpow (j : ℕ) : (10 : ℚ) ^ (k + j) = 10 ^ j * 10 ^ k := by
    rw [zpow_add₀ (by norm_num), zpow_natCast, mul_comm]
  have hcount : (m : ℚ) * 10 ^ k * 10 ^ (-k) = m := by
    rw [mul_assoc, ← zpow_add₀ (by norm_num), add_neg_cancel, zpow_zero, mul_one]
  refine ⟨?_, ?_, ?_, ?_⟩
  · rw [show k + (6 : ℕ) - 1 = k + (5 : ℕ) by push_cast; ring, hpow]
    gcongr
  · rw [hpow]
    gcongr
  · rw [hcount, sub_self, abs_zero]
    norm_num
  · rw [hcount, sub_self, abs_zero]
    norm_num

theorem Rounded.count_le_pow {n m : ℕ} {x : ℚ} {k : ℤ} (h : Rounded n x m k) : m ≤ 10 ^ n := by
  have hx : x * 10 ^ (-k) < 10 ^ n := by
    rw [zpow_neg, ← div_eq_mul_inv, div_lt_iff₀ (by positivity), mul_comm, ← zpow_natCast,
      ← zpow_add₀ (by norm_num)]
    exact h.lt
  have hm : (m : ℚ) < (10 ^ n + 1 : ℕ) := by
    push_cast
    linarith [(abs_le.mp h.near).2]
  exact Nat.lt_succ_iff.mp (by exact_mod_cast hm)

theorem Short.exists_scaled {n : ℕ} (h : Short n) (hn : 0 < n) : ∃ (m : ℕ) (k : ℤ),
    10 ^ 5 ≤ m ∧ m < 10 ^ 6 ∧ (n : ℚ) = m * 10 ^ k := by
  obtain ⟨m, k, hm, rfl⟩ := h
  have hpos : m ≠ 0 := (Nat.pos_of_mul_pos_right hn).ne'
  -- zeros fill the digits up to six
  have hlog : Nat.log 10 m < 6 := Nat.log_lt_of_lt_pow hpos hm
  obtain ⟨z, hz⟩ : ∃ z, Nat.log 10 m + z = 5 := ⟨5 - Nat.log 10 m, by omega⟩
  refine ⟨m * 10 ^ z, k - z, ?_, ?_, ?_⟩
  · rw [← hz, pow_add]
    exact Nat.mul_le_mul_right _ (Nat.pow_log_le_self 10 hpos)
  · rw [show 6 = Nat.log 10 m + 1 + z by omega, pow_add]
    exact Nat.mul_lt_mul_of_pos_right (Nat.lt_pow_succ_log_self (by decide) m) (by positivity)
  · push_cast
    rw [mul_assoc, ← zpow_natCast (10 : ℚ) z, ← zpow_add₀ (by norm_num), add_sub_cancel,
      zpow_natCast]

theorem short_of_scaled {n m : ℕ} {k : ℤ} (hm : m ≤ 10 ^ 6) (h : (n : ℚ) = m * 10 ^ k) : Short n := by
  have hshort {l : ℕ} (hl : l ≤ 10 ^ 6) : Short l := by
    rcases hl.eq_or_lt with rfl | hlt
    · exact ⟨1, 6, by decide, (one_mul _).symm⟩
    · exact ⟨l, 0, hlt, by rw [pow_zero, mul_one]⟩
  obtain ⟨j, rfl | rfl⟩ := k.eq_nat_or_neg
  · rw [zpow_natCast] at h
    have hn : n = m * 10 ^ j := by exact_mod_cast h
    obtain ⟨l, i, hl, rfl⟩ := hshort hm
    exact ⟨l, i + j, hl, by rw [hn, mul_assoc, pow_add]⟩
  · rw [zpow_neg, zpow_natCast, ← div_eq_mul_inv, eq_div_iff (by positivity)] at h
    have hn : n * 10 ^ j = m := by exact_mod_cast h
    exact hshort ((Nat.le_mul_of_pos_right n (by positivity)).trans (hn.trans_le hm))

end Decimal

namespace Binary

open Decimal

section Finite
variable {n : ℕ} (hfit : Format.double.nearest n 1 < Format.double.ceiling)

theorem shown_of_short (h : Short n) :
    Shown n (finite false ⟨Format.double.nearest n 1, hfit⟩ : Double).text := by
  rcases Nat.eq_zero_or_pos n with rfl | hn
  · have hzero : Format.double.nearest 0 1 = 0 := by decide +kernel
    simp only [text, write, if_pos hzero, Nat.cast_zero]
    exact .zero
  · obtain ⟨m, k, hm, hm', hnm⟩ := h.exists_scaled hn
    have hlow : (1 : ℚ) / 2 ^ 1022 ≤ m * 10 ^ k := by
      have hone : (1 : ℚ) ≤ n := by exact_mod_cast hn
      rw [← hnm, div_le_iff₀ (by positivity)]
      exact one_le_mul_of_one_le_of_one_le hone (one_le_pow₀ (by norm_num))
    have hnear : |Format.double.value (Format.double.nearest n 1) - n / (1 : ℕ)| ≤ _ :=
      Format.abs_value_nearest_sub_le (by decide) Nat.one_pos
    rw [Nat.cast_one, div_one] at hnear
    have hclose := nearest_close hm'.le hnm hlow (rounded_scaled hm hm' k) hnear
    obtain ⟨hne, hdigits⟩ := sixDigits_of_close (c := ⟨_, hfit⟩) hm hm'.le hclose
    have htext : (finite false ⟨_, hfit⟩ : Double).text = (ofScaled m k).text := by
      simp only [text, write, if_neg hne, hdigits]
      rfl
    rw [htext, hnm]
    exact .digits (by omega)

theorem denotes_text_nearest :
    Written.Denotes (finite false ⟨Format.double.nearest n 1, hfit⟩ : Double).text n ↔ Short n := by
  refine ⟨fun h => ?_, fun h => (shown_of_short hfit h).plain_or_scientific⟩
  obtain ⟨q, t, hq, ht, htext⟩ := exists_shown ⟨_, hfit⟩
  rw [htext false] at h
  have hnq : (n : ℚ) = q := h.unique ht.plain_or_scientific
  generalize Format.double.value _ = x at hq
  rcases hq with _ | hr
  · exact ⟨0, 0, by decide, by exact_mod_cast hnq⟩
  · exact short_of_scaled hr.count_le_pow hnq

end Finite

/-- **The naturals that are told exactly** as doubles: those of six digits, up to the limit. -/
theorem denotes_text_ofInt (n : ℕ) : Written.Denotes (ofInt n : Double).text n ↔
    Short n ∧ (n : ℚ) < 2 ^ 1024 - 2 ^ 970 := by
  have hcode : (ofInt n : Double) = ofCode false (Format.double.nearest n 1) := rfl
  have hlimit := Format.nearest_double_lt_iff n Nat.one_pos
  rw [Nat.cast_one, div_one] at hlimit
  rw [hcode, ← hlimit, ofCode]
  split_ifs with hfit
  · rw [denotes_text_nearest, and_iff_left hfit]
  · refine iff_of_false (fun h => ?_) fun h => hfit h.2
    obtain ⟨d, hd, u, hu⟩ := h.exists_digit
    have hletter : ∀ d < 10, Text.digit d ≠ 105 := by decide
    exact hletter d hd (List.cons.inj hu).1.symm

end Binary

/-! ### What is counted -/

namespace Value

variable {v : Value} {n : ℕ}

/-- **What is counted of a value**: the characters of a string, each byte that is none counting as
one, and the elements of a container. -/
inductive Counts : Value → ℕ → Prop
  | string (t : Text) : Counts (str t) t.glyphs.length
  | container {v : Value} {k : Container} (hk : v.container? = some k) : Counts v k.elements.length

theorem Counts.length_eq {a : Text} (ha : Literal.parse a = .ok v) (h : v.Counts n) :
    v.length = .ok n := by
  cases h with
  | string t => rfl
  | @container _ k hk =>
    have hplain : v.IsPlain := by
      obtain ⟨b, -, ⟨x, rfl⟩ | ⟨shape, xs, hv⟩⟩ := (Literal.parse_eq_ok.mp ha).cases_base
      · cases hk
      · cases hv with
        | array => exact .slice none b _
        | queue => exact .queue ⟨none, b⟩ _
        | stack => exact .stack ⟨none, b⟩ _
    obtain ⟨k', hk', hlen⟩ := hplain.length_eq
    obtain rfl := Option.some.inj (hk.symm.trans hk')
    exact length_eq_ok.mpr (Or.inr ⟨k, hk, hlen.symm⟩)

theorem length_of_not_counts (h : ∀ n, ¬ v.Counts n) :
    v.length = .error (.unsupported "len" v) := by
  unfold length
  split
  · exact absurd (.string _) (h _)
  · split
    · next k hk => exact absurd (.container hk) (h _)
    · rfl

end Value

/-! ### Running `len` -/

namespace Command

open Registry (ofPrinter)

variable {p : Printer} {c : Console} {a : Text} {v : Value} (ha : Literal.parse a = .ok v)
include ha

theorem parseAll_single : Literal.parseAll [a] = .ok [v] :=
  Literal.parseAll_eq_ok.mpr (.cons ha .nil)

theorem runLen_counted {n : Int} (hn : v.length = .ok n) (hc : c.Works) :
    runLen p (ofPrinter p) [a] c = (.ok (), (c.write ((Binary.ofInt n : Double).text ++ "\n")).2) := by
  have haction : Builtin.lenAction [v] c = ⟨.num (.ofInt n), none, [v], c⟩ := by
    rw [Builtin.lenAction, hn]
    rfl
  have hfind : (ofPrinter p).find? "len" = some Builtin.len := rfl
  have hcall : (ofPrinter p).call .live "len" [v] c = Builtin.lenAction [v] c :=
    Registry.call_live hfind rfl rfl (congrArg Reply.error haction)
  have ht : (Value.num (.ofInt n)).Renders p.style (Binary.ofInt n : Double).text :=
    .scalar (.scalar .double _)
  rw [runLen, parseAll_single ha]
  simp only [hcall, haction, andThen, sayLine_eq ht hc]

theorem runLen_refused {e : Error} (he : v.length = .error e) :
    ∃ c', runLen p (ofPrinter p) [a] c = (.error e, c') ∧ c'.output = c.output := by
  have haction : Builtin.lenAction [v] c = ⟨.absent, some e, [v], c⟩ := by
    rw [Builtin.lenAction, he]
    rfl
  have hfind : (ofPrinter p).find? "len" = some Builtin.len := rfl
  have htakes : Builtin.len.takes [v].length = true := rfl
  obtain ⟨herror, hconsole⟩ :=
    Registry.call_live_error hfind rfl htakes (congrArg Reply.error haction)
  refine ⟨((ofPrinter p).call .live "len" [v] c).console, ?_, ?_⟩
  · rw [runLen, parseAll_single ha]
    simp only [andThen, herror]
  · rw [hconsole, haction, Console.output_log]

end Command

/-- **How a run of `len` ends.**  Of a string or a container it writes the count on a line, and the
text is the count exactly, read as a decimal number, just if the count has six digits at most and
lies within the doubles.  All else it refuses, and it writes nothing. -/
structure Run.Measures (a : Text) (r : Run) : Prop where
  counted {v : Value} {n : ℕ} (hv : Literal.parse a = .ok v) (hn : v.Counts n) :
    r.error = none ∧ ∃ t, r.output = t ++ "\n" ∧
      (Written.Denotes t n ↔ Decimal.Short n ∧ (n : ℚ) < 2 ^ 1024 - 2 ^ 970)
  refused {v : Value} (hv : Literal.parse a = .ok v) (hn : ∀ n, ¬ v.Counts n) :
    r.error = some (.unsupported "len" v) ∧ r.output = []
  unread {e : Error} (he : Literal.parse a = .error e) : r.error = some e ∧ r.output = []

section Run
variable (m : Manual) {a : Text} (ha : ¬ Text.ofString "-" <+: a) (input : Option Input)
include ha

theorem runCommandLine_len (c : Console) :
    runCommandLine m ["len", a] c = (⟨.len, { }, [a]⟩ : Invocation).run m c := by
  have hread : Flag.read Command.len.flags Command.len.interspersed [a] { } = .ok ({ }, [a]) := by
    rw [Flag.read, if_pos (Invocation.Positional.not_flag (.inr (.inr ha)))]
    rfl
  have hlocate : Command.locate ["len", a] = .ok (.len, [a]) :=
    Command.locate_name (show Command.len ∈ Command.program.subcommands by decide) rfl [a]
  rw [runCommandLine, Invocation.parse, hlocate]
  simp only [hread]

theorem run_counted {v : Value} (hv : Literal.parse a = .ok v) {n : Int} (hn : v.length = .ok n) :
    (runCommandLine m ["len", a] (.new input true)).error = none ∧
      (runCommandLine m ["len", a] (.new input true)).output =
        (Binary.ofInt n : Double).text ++ "\n" := by
  have hworks := (Console.works_new input).log [Invocation.configured { }]
  have hrun := Command.runLen_counted (p := Invocation.printer { }) hv hn hworks
  rw [runCommandLine_len m ha, Invocation.run_of_ok (i := ⟨.len, { }, [a]⟩) rfl rfl rfl hrun]
  have hempty : ((Console.new input true).log [Invocation.configured { }]).output = [] := rfl
  refine ⟨rfl, ?_⟩
  rw [Run.output, hworks.output_write, hempty, List.nil_append]

theorem run_failed {e : Error} (h : ∀ c, ∃ c', Command.runLen (Invocation.printer { })
      (Registry.ofPrinter (Invocation.printer { })) [a] c = (.error e, c') ∧ c'.output = c.output) :
    (runCommandLine m ["len", a] (.new input true)).error = some e ∧
      (runCommandLine m ["len", a] (.new input true)).output = [] := by
  obtain ⟨c, hrun, houtput⟩ := h ((Console.new input true).log [Invocation.configured { }])
  rw [runCommandLine_len m ha, Invocation.run_of_error (i := ⟨.len, { }, [a]⟩) rfl rfl rfl hrun]
  exact ⟨rfl, houtput⟩

/-- **Lengths are told to six digits.**  A literal that does not start with a dash is measured: the
characters of a string or the elements of a container are counted, and the count is said as a double
to six significant digits, so that it is told exactly just if it has no more; everything else is
refused. -/
theorem runCommandLine_measures :
    Run.Measures a (runCommandLine m ["len", a] (.new input true)) := by
  refine ⟨fun {v n} hv hn => ?_, fun {v} hv hn => ?_, fun {e} he => ?_⟩
  · obtain ⟨herror, houtput⟩ := run_counted m ha input hv (hn.length_eq hv)
    exact ⟨herror, _, houtput, Binary.denotes_text_ofInt n⟩
  · exact run_failed m ha input fun c => Command.runLen_refused hv (Value.length_of_not_counts hn)
  · have hall : Literal.parseAll [a] = .error e := by rw [Literal.parseAll, he]
    exact run_failed m ha input fun c => ⟨c, by rw [Command.runLen, hall], rfl⟩

end Run

/-- A character of two bytes, a byte that is no character, and a letter; and a queue. -/
theorem runCommandLine_measures_bytes :
    let a : Text := [195, 169, 255, 97]
    let q := Text.ofString "q:[true, false]"
    let m : Manual := ⟨fun _ _ => [], fun _ _ => []⟩
    let c := Console.new none true
    ¬ Text.ofString "-" <+: a ∧ Literal.parse a = .ok (.str a) ∧
      Run.Measures a (runCommandLine m ["len", a] c) ∧
      (runCommandLine m ["len", a] c).output = "3\n" ∧
      ¬ Text.ofString "-" <+: q ∧ Run.Measures q (runCommandLine m ["len", q] c) ∧
      (runCommandLine m ["len", q] c).output = "2\n" := by
  intro a q m c
  have ha : ¬ Text.ofString "-" <+: a := by decide
  have hq : ¬ Text.ofString "-" <+: q := by decide
  exact ⟨ha, rfl, runCommandLine_measures m ha none, by decide +kernel, hq,
    runCommandLine_measures m hq none, by decide +kernel⟩

/-! ### A length that is not told -/

theorem Literal.parse_word (t : Text) : parse (97 :: t) = .ok (.str (97 :: t)) := by
  have hread : Json.read? (97 :: t) = none := rfl
  have hopens : ¬ Opens (97 :: t) := by
    rw [← looksEnclosed_iff, Bool.not_eq_true]
    rfl
  rw [parse_eq_ok]
  change Denotes _ _ _ (Json.read? (97 :: t)) _
  rw [hread]
  exact .bare hopens

theorem Text.length_glyphs_letters (n : ℕ) : (Text.glyphs (List.replicate n 97)).length = n := by
  induction n with
  | zero => rfl
  | succ n ih =>
    have hletter : Text.glyphs (97 :: List.replicate n 97) =
        .char 'a' :: Text.glyphs (List.replicate n 97) := rfl
    rw [List.replicate_succ, hletter, List.length_cons, ih]

theorem run_letters (m : Manual) {n : ℕ} (hn : 0 < n) (input : Option Input) :
    let a : Text := List.replicate n 97
    let r := runCommandLine m ["len", a] (.new input true)
    ¬ Text.ofString "-" <+: a ∧ Literal.parse a = .ok (.str a) ∧ (Value.str a).Counts n ∧
      r.error = none ∧ r.output = (Binary.ofInt n : Double).text ++ "\n" := by
  intro a r
  obtain ⟨t, ht⟩ : ∃ t, a = 97 :: t := by
    obtain ⟨k, rfl⟩ := Nat.exists_eq_add_of_lt hn
    exact ⟨List.replicate (0 + k) 97, List.replicate_succ⟩
  have ha : ¬ Text.ofString "-" <+: a := by
    rintro ⟨u, hu⟩
    exact absurd (List.cons.inj (hu.trans ht)).1 (by decide)
  have hparse : Literal.parse a = .ok (.str a) := ht ▸ Literal.parse_word t
  have hcounts : (Value.str a).Counts n := by
    have h := Value.Counts.string a
    rwa [Text.length_glyphs_letters] at h
  exact ⟨ha, hparse, hcounts, run_counted m ha input hparse (hcounts.length_eq hparse)⟩

theorem Decimal.not_short_million_one : ¬ Short 1000001 := by
  rintro ⟨m, k, hm, h⟩
  cases k with
  | zero => omega
  | succ k =>
    rw [pow_succ, ← mul_assoc] at h
    omega

/-- **A million letters and one** are said to be a million. -/
theorem runCommandLine_len_million_one :
    let a : Text := List.replicate 1000001 97
    let m : Manual := ⟨fun _ _ => [], fun _ _ => []⟩
    let r := runCommandLine m ["len", a] (.new none true)
    ¬ Text.ofString "-" <+: a ∧ Literal.parse a = .ok (.str a) ∧ (Value.str a).Counts 1000001 ∧
      r.error = none ∧ r.output = "1e+06\n" ∧ ¬ Written.Denotes "1e+06" 1000001 := by
  have htext : (Binary.ofInt (1000001 : ℕ) : Double).text = "1e+06" := by decide +kernel
  have htold : ¬ Written.Denotes "1e+06" 1000001 := by
    have htold := Binary.denotes_text_ofInt 1000001
    rw [htext, Nat.cast_ofNat] at htold
    exact fun h => Decimal.not_short_million_one (htold.mp h).1
  obtain ⟨ha, hparse, hcounts, herror, houtput⟩ :=
    run_letters ⟨fun _ _ => [], fun _ _ => []⟩ (n := 1000001) (by decide) none
  exact ⟨ha, hparse, hcounts, herror, houtput.trans (congrArg (· ++ Text.ofString "\n") htext), htold⟩

end Colloquy
