import Colloquy.Builtins
import Colloquy.Proofs.Registry

/-!
# Calls

`Called` says how a call of a name goes on a map of builtins.  It is refused if the context is over,
if the name stands for nothing, or if the number of arguments does not fit, in this order; the reply
then has the arguments and the console as they were.  Otherwise the action of the builtin replies
once, to the very arguments of the call, and `Settles` says what becomes of its reply.

* `WellFormed.called`: the calls on a well-formed registry go this way.
* `Called.count_le`: no counter of invocations on the console goes up by more than one.
* `Default.body?_eq_some`: with a number of arguments that fits, the builtins of every program find
  all the arguments that they look for.
-/

namespace Colloquy

/-! ### Errors around errors -/

namespace Error

/-- The error `inner`, in any number of contexts. -/
inductive Wraps : Error → Error → Prop
  | refl (e : Error) : Wraps e e
  | within (context : Text) {e inner : Error} : Wraps e inner → Wraps (.within context e) inner

theorem Wraps.cause_eq {e inner : Error} (h : e.Wraps inner) : e.cause = inner.cause := by
  induction h with
  | refl => rfl
  | within context _ ih => exact ih

theorem wraps_cause (e : Error) : e.Wraps e.cause := by
  induction e with
  | within context e ih => exact .within context ih
  | _ => exact .refl _

end Error

namespace Builtin

/-- The number of arguments lies within the bounds. -/
def Fits (b : Builtin) (n : Nat) : Prop := b.least ≤ n ∧ (b.most < 0 ∨ (n : Int) ≤ b.most)

theorem takes_iff {b : Builtin} {n : Nat} : b.takes n = true ↔ b.Fits n := by
  simp [takes, Fits]

end Builtin

namespace Registry

/-! ### Failed calls -/

/-- **What is logged of a failed call**: where the position lay, if the error is about a position
outside a vector, in whatever contexts. -/
inductive Reports (name : Text) (e : Error) : Entry → Prop
  | outOfRange {op : Text} {x : Double} {i n : Int} : e.Wraps (.outOfBounds op x i n) →
      Reports name e ⟨.debug, "index out of range",
        [("builtin", .str name), ("error", .str e.message), ("position", .num x), ("len", .int n)]⟩
  | failed : (∀ op x i n, ¬ e.Wraps (.outOfBounds op x i n)) →
      Reports name e ⟨.debug, "builtin failed",
        [("builtin", .str name), ("error", .str e.message)]⟩

theorem reports_failure (name : Text) (e : Error) : Reports name e (failure name e) := by
  by_cases h : ∃ op x i n, e.cause = .outOfBounds op x i n
  · obtain ⟨op, x, i, n, hc⟩ := h
    have hw : e.Wraps (.outOfBounds op x i n) := hc ▸ e.wraps_cause
    simpa [failure, hc] using Reports.outOfRange hw
  · have hw : ∀ op x i n, ¬ e.Wraps (.outOfBounds op x i n) :=
      fun op x i n hw => h ⟨op, x, i, n, hw.cause_eq⟩
    have hf : failure name e =
        ⟨.debug, "builtin failed", [("builtin", .str name), ("error", .str e.message)]⟩ := by
      unfold failure
      split
      · next op x i n hc => exact absurd ⟨op, x, i, n, hc⟩ h
      · rfl
    rw [hf]
    exact .failed hw

/-- **What becomes of the reply of an action.**  A success is passed on as it is.  A failure loses
its value, and is logged once. -/
inductive Settles (name : Text) (a : Reply) : Reply → Prop
  | returned : a.error = none → Settles name a a
  | failed {e : Error} {entry : Entry} : a.error = some e → Reports name e entry →
      Settles name a ⟨.absent, some e, a.arguments, a.console.log [entry]⟩

/-! ### The gate -/

/-- **How a call goes** on a map of builtins. -/
inductive Called (m : Text → Option Builtin) (x : Context) (name : Text) (args : List Value)
    (c : Console) : Reply → Prop
  | ended {e : Error} : x.error? = some e → Called m x name args c ⟨.absent, some e, args, c⟩
  | unknown : x.error? = none → m name = none →
      Called m x name args c ⟨.absent, some (.notFound name), args, c⟩
  | misfit {b : Builtin} : x.error? = none → m name = some b → ¬ b.Fits args.length →
      Called m x name args c
        ⟨.absent, some (.wrongArity b.name b.least b.most args.length), args, c⟩
  | invoked {b : Builtin} {act : Action} {reply : Reply} : x.error? = none → m name = some b →
      b.Fits args.length → b.action = some act → Settles name (act args c) reply →
      Called m x name args c reply

theorem call_of_error {r : Registry} {x : Context} {name : Text} {args : List Value} {e : Error}
    (h : r.gate x name args.length = .error e) (c : Console) :
    r.call x name args c = ⟨.absent, some e, args, c⟩ := by
  simp [call, h]

theorem settles_call {r : Registry} {x : Context} {name : Text} {args : List Value} {act : Action}
    (h : r.gate x name args.length = .ok act) (c : Console) :
    Settles name (act args c) (r.call x name args c) := by
  cases he : (act args c).error with
  | none => simpa [call, h, he] using Settles.returned he
  | some e => simpa [call, h, he] using Settles.failed he (reports_failure name e)

/-- Every call on a well-formed registry is refused or goes through to an action. -/
theorem WellFormed.called {r : Registry} (h : r.WellFormed) (x : Context) (name : Text)
    (args : List Value) (c : Console) :
    Called r.find? x name args c (r.call x name args c) := by
  cases hx : x.error? with
  | some e =>
    rw [call_of_error (e := e) (by simp [gate, hx])]
    exact .ended hx
  | none =>
    cases hb : r.find? name with
    | none =>
      rw [call_of_error (e := .notFound name) (by simp [gate, hx, hb])]
      exact .unknown hx hb
    | some b =>
      by_cases hf : b.Fits args.length
      · obtain ⟨act, hact⟩ := (h.valid b (mem_of_find? hb).1).implemented
        refine .invoked hx hb hf hact (settles_call ?_ c)
        simp [gate, hx, hb, Builtin.takes_iff.mpr hf, hact]
      · rw [call_of_error (e := .wrongArity b.name b.least b.most args.length)
          (by simp [gate, hx, hb, mt Builtin.takes_iff.mp hf])]
        exact .misfit hx hb hf

/-- Whatever on the console tells how often actions were invoked, a call adds at most one. -/
theorem Called.count_le {m : Text → Option Builtin} {x : Context} {name : Text}
    {args : List Value} {c : Console} {reply : Reply} (h : Called m x name args c reply)
    {count : Console → Nat} (hlog : ∀ c es, count (c.log es) = count c)
    (hact : ∀ b act, m name = some b → b.action = some act →
      ∀ args c, count (act args c).console = count c + 1) :
    count reply.console ≤ count c + 1 := by
  cases h with
  | ended | unknown | misfit => exact Nat.le_succ _
  | invoked hx hb hf ha hs =>
    have hone := hact _ _ hb ha args c
    cases hs with
    | returned => exact Nat.le_of_eq hone
    | failed => exact Nat.le_of_eq ((hlog _ _).trans hone)

end Registry

/-! ### The builtins of every program -/

namespace Builtin

/-- The builtins of every program, by what they are for. -/
inductive Default where
  | say
  | ask
  | index
  | len

namespace Default

def builtin (p : Printer) : Default → Builtin
  | say => Builtin.say p
  | ask => Builtin.ask p
  | index => Builtin.index
  | len => Builtin.len

/-- **What a builtin does, by the places of its arguments**; undefined if it looks at a place where
there is none.  The first two take their arguments as a whole. -/
def body? (p : Printer) (args : List Value) (c : Console) : Default → Option Reply
  | say => some (answer args (p.say args c).2 ((p.say args c).1.map fun _ => .absent))
  | ask => some (answer args (p.ask args c).2 ((p.ask args c).1.map .str))
  | index => do
    match position (← args[1]?) with
    | .error e => some ⟨.absent, some e, args, c⟩
    | .ok x =>
      if args.length = 3 then
        match (← args[0]?).setIndex x (← args[2]?) with
        | .ok (old, vec) => some ⟨old, none, args.set 0 vec, c⟩
        | .error e => some ⟨.absent, some e, args, c⟩
      else some (answer args c ((← args[0]?).index x))
  | len => do some (answer args c ((← args[0]?).length.map fun n => .num (.ofInt n)))

theorem exists_of_mem_defaults {p : Printer} {b : Builtin} (h : b ∈ defaults p) :
    ∃ d : Default, d.builtin p = b := by
  have h : b = Builtin.say p ∨ b = Builtin.ask p ∨ b = Builtin.index ∨ b = Builtin.len := by
    simpa [defaults] using h
  rcases h with rfl | rfl | rfl | rfl
  · exact ⟨say, rfl⟩
  · exact ⟨ask, rfl⟩
  · exact ⟨index, rfl⟩
  · exact ⟨len, rfl⟩

theorem index_body? (p : Printer) (c : Console) {args : List Value}
    (h : Builtin.index.Fits args.length) :
    index.body? p args c = some (indexAction args c) := by
  obtain ⟨hl, hm⟩ := h
  simp only [Builtin.index] at hl hm
  -- only lists of two and of three arguments are left
  rcases args with _ | ⟨vec, _ | ⟨x, _ | ⟨v, _ | ⟨w, ws⟩⟩⟩⟩ <;> simp at hl hm
  · cases hx : position x <;> simp [body?, indexAction, hx, answer, bind, Except.bind]
  · cases hx : position x with
    | error e => simp [body?, indexAction, hx, bind, Except.bind]
    | ok y =>
      cases hs : vec.setIndex y v <;> simp [body?, indexAction, hx, hs, bind, Except.bind]
  · omega

theorem len_body? (p : Printer) (c : Console) {args : List Value}
    (h : Builtin.len.Fits args.length) : len.body? p args c = some (lenAction args c) := by
  obtain ⟨hl, hm⟩ := h
  simp only [Builtin.len] at hl hm
  rcases args with _ | ⟨v, _ | ⟨w, ws⟩⟩ <;> simp at hl hm
  · rfl
  · omega

/-- With a number of arguments that fits, a builtin of every program looks at no place where there
is no argument. -/
theorem body?_eq_some (p : Printer) (c : Console) (d : Default) {args : List Value} {act : Action}
    (h : (d.builtin p).Fits args.length) (ha : (d.builtin p).action = some act) :
    d.body? p args c = some (act args c) := by
  cases d with
  | say =>
    obtain rfl := Option.some.inj ha
    rfl
  | ask =>
    obtain rfl := Option.some.inj ha
    rfl
  | index =>
    obtain rfl := Option.some.inj ha
    exact index_body? p c h
  | len =>
    obtain rfl := Option.some.inj ha
    exact len_body? p c h

end Default

end Builtin

namespace Registry

theorem Called.exists_body? {m : Text → Option Builtin} {x : Context} {name : Text}
    {args : List Value} {c : Console} {reply : Reply} (h : Called m x name args c reply)
    {p : Printer} {d : Builtin.Default} (hx : x.error? = none)
    (hd : m name = some (d.builtin p)) (hf : (d.builtin p).Fits args.length) :
    ∃ a, d.body? p args c = some a ∧ Settles name a reply := by
  cases h with
  | ended hx' => simp [hx] at hx'
  | unknown _ hn => simp [hd] at hn
  | misfit _ hb hn =>
    obtain rfl := Option.some.inj (hd.symm.trans hb)
    exact absurd hf hn
  | invoked _ hb _ ha hs =>
    obtain rfl := Option.some.inj (hd.symm.trans hb)
    exact ⟨_, d.body?_eq_some p c hf ha, hs⟩

/-- **Calls are gated**, on every registry that operations lead to: a call is refused without any
trace or goes through to one reply of the action, whose failure is logged once.  The builtins of
every program, when they are invoked, look only at places where there are arguments. -/
theorem call_gated (ops : List Operation) (x : Context) (name : Text) (args : List Value)
    (c : Console) :
    let r := empty.run ops
    let reply := r.call x name args c
    Called r.find? x name args c reply ∧
    (∀ count : Console → Nat, (∀ c es, count (c.log es) = count c) →
      (∀ b act, r.find? name = some b → b.action = some act →
        ∀ args c, count (act args c).console = count c + 1) →
      count reply.console ≤ count c + 1) ∧
    ∀ (p : Printer), ∀ b ∈ Builtin.defaults p, x.error? = none → r.find? name = some b →
      b.Fits args.length →
      ∃ d a, Builtin.Default.builtin p d = b ∧ d.body? p args c = some a ∧
        Settles name a reply := by
  have hc := (wellFormed_run ops).called x name args c
  refine ⟨hc, fun count hlog hact => hc.count_le hlog hact, ?_⟩
  intro p b hb hx hn hf
  obtain ⟨d, rfl⟩ := Builtin.Default.exists_of_mem_defaults hb
  obtain ⟨a, ha, hs⟩ := hc.exists_body? hx hn hf
  exact ⟨d, a, rfl, ha, hs⟩

end Registry

end Colloquy
