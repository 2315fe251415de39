/-
Primer/Proofs/Tracing.lean

Tracing is invisible to the program.

A program that does not mention the trace count does the same whatever the
count is: it ends in the same value or error, or not at all, writes the same to
`out` and leaves every variable the same, the trace count apart
(`tracing_is_invisible`).  This holds in both languages.

Both evaluations are compared with a third one, in which there is no trace: see
`Functional.match_eval_untraced` and `Procedural.match_eval_untraced`.  That
the indentation is the same at the end comes from `level_eval`.
-/
import Primer.Proofs.DepthLimit
import Primer.Proofs.Functional.Untraced
import Primer.Proofs.Procedural.Untraced

namespace Primer

open Outcome

/-! ### The functional language -/

namespace Functional

/-- Two states that differ at most in the trace count and in what was written to the
diagnostic channel. -/
structure SameButTrace (m m' : State) : Prop where
  values : ∀ env x, x ≠ Trace.countName →
    m.memory.store.get? env x = m'.memory.store.get? env x
  frames : m.memory.store.frames.size = m'.memory.store.frames.size
  labels : m.memory.nextLabel = m'.memory.nextLabel
  out : m.console.out = m'.console.out
  indent : m.indent = m'.indent

theorem sameButTrace_of_untraced {m m' : State}
    (h : m.untraced Memory.untraced = m'.untraced Memory.untraced ∧ m.indent = m'.indent) :
    SameButTrace m m' := by
  obtain ⟨h, hindent⟩ := h
  have hstore : m.memory.store.without Trace.countName = m'.memory.store.without Trace.countName :=
    congrArg (·.memory.store) h
  refine ⟨fun env x hx => ?_, ?_, congrArg (·.memory.nextLabel) h, congrArg (·.console.out) h,
    hindent⟩
  · rw [Store.get?, Store.get?, ← Store.getIn_without_ne m.memory.store hx, hstore,
      Store.getIn_without_ne _ hx]
  · rw [← Store.size_without m.memory.store Trace.countName, hstore, Store.size_without]

/-- Whether and how an evaluation ends does not depend on the trace count. -/
theorem endTogether_traceCount {e : Exp} {env : Env} {m : State} (h : Oblivious e env m)
    (hw : m.console.diag.Open) (n k : Number) (depth start : Nat) :
    EndTogether (Agree SameButTrace Eq)
      (evalFrom depth start e env (m.defineGlobal Trace.countName (.number n)))
      (evalFrom depth start e env (m.defineGlobal Trace.countName (.number k))) := by
  have hn : ∀ turns, _ := fun turns => match_eval_untraced h hw ⟨depth, turns⟩ (depth - start) n
  have hk : ∀ turns, _ := fun turns => match_eval_untraced h hw ⟨depth, turns⟩ (depth - start) k
  refine endTogether_of_forall (fun turns => ?_) fun turns hfin => ?_
  · exact (hn turns).finished_eq.trans (hk turns).finished_eq.symm
  · have hagree := agree_of_hides (fun _ _ _ => Unaware.value_eq) (hn turns) (hk turns)
      (level_eval _ _ e env _) (level_eval _ _ e env _) hfin
    exact hagree.forget (fun _ _ _ => sameButTrace_of_untraced) fun _ _ _ h => h

end Functional

/-! ### The procedural language -/

namespace Procedural

/-- Two states that differ at most in the trace count and in what was written to the
diagnostic channel. -/
structure SameButTrace (m m' : State) : Prop where
  locals : ∀ x, x ≠ Trace.countName →
    m.memory.scopes.locals.get? x = m'.memory.scopes.locals.get? x
  formals : ∀ x, x ≠ Trace.countName →
    m.memory.scopes.formals.get? x = m'.memory.scopes.formals.get? x
  globals : ∀ x, x ≠ Trace.countName → m.global? x = m'.global? x
  functions : m.memory.functions = m'.memory.functions
  out : m.console.out = m'.console.out
  indent : m.indent = m'.indent

theorem sameButTrace_of_untraced {m m' : State}
    (h : m.untraced Memory.untraced = m'.untraced Memory.untraced ∧ m.indent = m'.indent) :
    SameButTrace m m' := by
  obtain ⟨h, hindent⟩ := h
  have hget : ∀ {bs bs' : Bindings Number},
      bs.without Trace.countName = bs'.without Trace.countName →
        ∀ x, x ≠ Trace.countName → bs.get? x = bs'.get? x := by
    intro bs bs' hbs x hx
    rw [← Bindings.get?_without_ne hx, hbs, Bindings.get?_without_ne hx]
  exact ⟨hget (congrArg (·.memory.scopes.locals) h), hget (congrArg (·.memory.scopes.formals) h),
    hget (congrArg (·.memory.globals) h), congrArg (·.memory.functions) h,
    congrArg (·.console.out) h, hindent⟩

/-- An expression that does not mention the trace count, from a state that gives it
no function to call that does. -/
structure Oblivious (e : Exp) (m : State) : Prop where
  exp : Trace.countName ∉ e.names
  functions : m.memory.Unaware

/-- Whether and how an evaluation ends does not depend on the trace count. -/
theorem endTogether_traceCount {e : Exp} {m : State} (h : Oblivious e m)
    (hw : m.console.diag.Open) (n k : Number) (depth start : Nat) :
    EndTogether (Agree SameButTrace Eq)
      (evalFrom depth start e (m.defineGlobal Trace.countName n))
      (evalFrom depth start e (m.defineGlobal Trace.countName k)) := by
  have hn : ∀ turns, _ := fun turns =>
    match_eval_untraced h.exp h.functions hw ⟨depth, turns⟩ (depth - start) n
  have hk : ∀ turns, _ := fun turns =>
    match_eval_untraced h.exp h.functions hw ⟨depth, turns⟩ (depth - start) k
  refine endTogether_of_forall (fun turns => ?_) fun turns hfin => ?_
  · exact (hn turns).finished_eq.trans (hk turns).finished_eq.symm
  · have hagree := agree_of_hides (fun _ _ _ h => h) (hn turns) (hk turns) (level_eval _ _ e _)
      (level_eval _ _ e _) hfin
    exact hagree.forget (fun _ _ _ => sameButTrace_of_untraced) fun _ _ _ h => h

end Procedural

/-! ### Both languages -/

/-- **Tracing is invisible to the program.**  Whatever the trace count is, `n` or
`k`, an expression that cannot get at it either does not end, or ends in the
same value or error and in states that are the same but for the trace. -/
theorem tracing_is_invisible (n k : Number) (depth start : Nat) :
    (∀ (e : Functional.Exp) (env : Functional.Env) (m : Functional.State),
      Functional.Oblivious e env m → m.console.diag.Open →
        EndTogether (Agree Functional.SameButTrace Eq)
          (Functional.evalFrom depth start e env (m.defineGlobal Trace.countName (.number n)))
          (Functional.evalFrom depth start e env (m.defineGlobal Trace.countName (.number k)))) ∧
    (∀ (e : Procedural.Exp) (m : Procedural.State),
      Procedural.Oblivious e m → m.console.diag.Open →
        EndTogether (Agree Procedural.SameButTrace Eq)
          (Procedural.evalFrom depth start e (m.defineGlobal Trace.countName n))
          (Procedural.evalFrom depth start e (m.defineGlobal Trace.countName k))) :=
  ⟨fun _ _ _ h hw => Functional.endTogether_traceCount h hw n k depth start,
    fun _ _ h hw => Procedural.endTogether_traceCount h hw n k depth start⟩

/-- A function that prints its argument, called with its calls traced and with no
trace, in both languages. -/
theorem tracing_is_invisible_call :
    let e : Functional.Exp := .apply (.var "f") [.literal (.bool true)]
    let f : Functional.Lambda := ⟨0, ["x"], .apply (.var "println") [.var "x"]⟩
    let globals : Functional.Frame := [("f", .closure f .globals), ("println", .primitive .println)]
    let m : Functional.State := ⟨⟨⟨#[globals]⟩, 1⟩, .empty, 0⟩
    let e' : Procedural.Exp := .call "f" [.literal .zero]
    let p : Procedural.Procedure := ⟨["x"], ["y"], .set "y" (.call "println" [.var "x"])⟩
    let m' : Procedural.State :=
      ⟨⟨.none, [], [("f", .procedure p), ("println", .primitive .println)]⟩, .empty, 0⟩
    (Functional.Oblivious e .globals m ∧ m.console.diag.Open ∧
      EndTogether (Agree Functional.SameButTrace Eq)
        (Functional.evalFrom 5 0 e .globals
          (m.defineGlobal Trace.countName (.number (.ofBool true))))
        (Functional.evalFrom 5 0 e .globals (m.defineGlobal Trace.countName (.number .zero)))) ∧
    (Procedural.Oblivious e' m' ∧ m'.console.diag.Open ∧
      EndTogether (Agree Procedural.SameButTrace Eq)
        (Procedural.evalFrom 5 0 e' (m'.defineGlobal Trace.countName (.ofBool true)))
        (Procedural.evalFrom 5 0 e' (m'.defineGlobal Trace.countName .zero))) := by
  intro e f globals m e' p m'
  have hclosure : ∀ b ∈ globals, ∀ c ∈ b.2.closures, c = (f, .globals) := by
    simp [globals, Functional.Value.closures]
  -- the only frame is the global one
  have hreach : ∀ id, m.memory.store.Reachable [0] id → id = 0 := by
    intro id hid
    induction hid with
    | root h => simpa using h
    | captured _ hb hc hid' ih =>
      subst ih
      obtain rfl := hclosure _ hb _ hc
      simpa [Functional.Env.frames, Functional.Env.globals] using hid'
  have hm : Functional.Oblivious e .globals m := by
    refine ⟨by decide, fun id hid b hb c hc => ?_⟩
    obtain rfl := hreach id hid
    obtain rfl := hclosure b hb c hc
    decide
  have hm' : Procedural.Oblivious e' m' := by
    refine ⟨by decide, fun name q hq => ?_⟩
    simp only [m', Bindings.get?] at hq
    split at hq
    · obtain rfl : p = q := by simpa using hq
      decide
    · split at hq <;> cases hq
  have hopen : Channel.empty.Open := Channel.empty_open
  exact ⟨⟨hm, hopen, (tracing_is_invisible _ _ 5 0).1 e .globals m hm hopen⟩,
    ⟨hm', hopen, (tracing_is_invisible _ _ 5 0).2 e' m' hm' hopen⟩⟩

end Primer
