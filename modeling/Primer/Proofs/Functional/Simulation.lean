/-
Primer/Proofs/Functional/Simulation.lean

Two evaluations of one expression, step by step.

Many properties of the functional language compare an evaluation with another
one of the same expression: in another environment, from a store that differs
somewhere, or with itself.  What these comparisons have in common is said here
once.  A `Coupling` tells which states go together and which pairs of
environments an expression may be evaluated in; which values go together then
follows, since only closures have environments.  `Coupling.Simulates` lists what
a coupling has to satisfy:

* parts of an expression may be evaluated where the expression may
  (`scope_part`), and its bodies inside a new frame (`scope_body`);
* a look-up, an assignment, a new frame and a traced call on both sides lead
  from states that go together to states that go together.

From these the evaluations themselves go together (`Simulates.eval`), by
induction on the levels of depth that are left.

Worlds are used as in `Outcome.Match`; a new frame for some names may make the
world grow.
-/
import Primer.Proofs.Frames
import Primer.Proofs.Functional.Alike
import Primer.Proofs.Lockstep

namespace Primer.Functional

open Outcome

/-! ### Where the parts of an expression are evaluated -/

/-- The parts of an expression that are evaluated in its own environment.  Of
sequential bindings this is the first initial value; the rest is a body. -/
def Exp.parts : Exp → List Exp
  | .set _ e => [e]
  | .cond test yes no => [test, yes, no]
  | .loop test body => [test, body]
  | .block parts => parts
  | .apply callee args => callee :: args
  | .bind .plain bindings _ => bindings.map (·.2)
  | .bind .sequential [] body => [body]
  | .bind .sequential (b :: _) _ => [b.2]
  | _ => []

/-- The parts of an expression that are evaluated in a new frame, each with the
names of that frame. -/
def Exp.bodies : Exp → List (List String × Exp)
  | .lambda _ formals body => [(formals, body)]
  | .bind .plain bindings body => [(bindings.map (·.1), body)]
  | .bind .sequential (b :: bs) body => [([b.1], .bind .sequential bs body)]
  | .bind .recursive bindings body =>
      (bindings.map (·.1), body) :: bindings.map fun b => (bindings.map (·.1), b.2)
  | _ => []

/-- The environment of a new frame. -/
def State.inside (m : State) (env : Env) : Env := ⟨m.memory.store.frames.size, env.frames⟩

theorem State.extend_fst (m : State) (env : Env) (pairs : List (String × Value)) :
    (m.extend env pairs).1 = m.inside env := rfl

/-! ### Recursive bindings -/

/-- The closure that a lambda expression evaluates to. -/
def Exp.closeIn (env : Env) : Exp → Value
  | .lambda label formals body => .closure ⟨label, formals, body⟩ env
  | _ => .unspecified

theorem nonLambda?_eq_none_iff {bindings : List (String × Exp)} :
    nonLambda? bindings = none ↔ ∀ b ∈ bindings, b.2.isLambda = true := by
  simp [nonLambda?]

theorem eval_lambda {e : Exp} (he : e.isLambda = true) (l : Limits) (left : Nat) (env : Env)
    (m : State) : eval l (left + 1) e env m = .value (e.closeIn env) m := by
  cases e with
  | lambda label formals body => rfl
  | _ => cases he

theorem evalEach_lambdas {bindings : List (String × Exp)}
    (h : ∀ b ∈ bindings, b.2.isLambda = true) (l : Limits) (left : Nat) (env : Env) (m : State) :
    evalEach (fun b m => eval l (left + 1) b.2 env m) bindings m
      = .value (bindings.map fun b => b.2.closeIn env) m := by
  induction bindings with
  | nil => rfl
  | cons b bs ih =>
    have htail := ih fun b' hb' => h b' (List.mem_cons_of_mem b hb')
    simp only [evalEach, eval_lambda (h b List.mem_cons_self), andThen_value, htail, List.map_cons]

/-- The bindings of the placeholders, as names and values. -/
theorem map_placeholder_eq_zip (bindings : List (String × Exp)) :
    bindings.map (fun b => (b.1, Value.unspecified))
      = (bindings.map (·.1)).zip (bindings.map fun _ => .unspecified) := by
  rw [List.zip_map']

/-- Recursive bindings with no level left for their initial values. -/
theorem eval_recursive_zero {bindings : List (String × Exp)} (h : nonLambda? bindings = none)
    (l : Limits) (body : Exp) (env : Env) (m : State) :
    eval l 1 (.bind .recursive bindings body) env m
      = .fault (.tooDeep l.depth)
          (m.extend env (bindings.map fun b => (b.1, .unspecified))).2 := by
  simp only [eval, h]
  cases bindings <;> rfl

/-- Recursive bindings: one new frame that binds each name to the closure of its
initial value over that very frame. -/
theorem eval_recursive_succ {bindings : List (String × Exp)} (h : nonLambda? bindings = none)
    (l : Limits) (left : Nat) (body : Exp) (env : Env) (m : State) :
    eval l (left + 2) (.bind .recursive bindings body) env m
      = eval l (left + 1) body (m.inside env)
          (m.extend env ((bindings.map (·.1)).zip
            (bindings.map fun b => b.2.closeIn (m.inside env)))).2 := by
  have hnames : (bindings.map fun b => (b.1, Value.unspecified)).map (·.1)
      = ((bindings.map (·.1)).zip
          (bindings.map fun b => b.2.closeIn (m.inside env))).map (·.1) := by
    rw [List.map_fst_zip (by simp)]
    simp
  rw [eval]
  simp only [h, State.extend_fst]
  rw [evalEach_lambdas (nonLambda?_eq_none_iff.1 h), andThen_value, ← assignAll_extend m env hnames]
  rfl

/-! ### Couplings -/

/-- Which states and which environments of two evaluations go together. -/
structure Coupling (W : Type) where
  state : W → State → State → Prop
  /-- the pairs of environments in which an expression may be evaluated -/
  scope : W → Exp → Env → Env → Prop
  /-- whether the placeholder counts as a value -/
  hole : Prop
  /-- the world after a new frame with these names -/
  grow : W → List String → W

variable {W : Type} [Preorder W]

/-- Which values go together: closures of the same function, over environments in
which it may be evaluated. -/
def Coupling.value {W : Type} (c : Coupling W) (w : W) : Value → Value → Prop :=
  Value.Alike c.hole fun f => c.scope w f.toExp

/-- What makes the evaluations of a coupling go together. -/
structure Coupling.Simulates (c : Coupling W) : Prop where
  le_grow : ∀ w names, w ≤ c.grow w names
  scope_mono : ∀ {w w' e env env'}, w ≤ w' → c.scope w e env env' → c.scope w' e env env'
  scope_part : ∀ {w e env env' part},
    c.scope w e env env' → part ∈ e.parts → c.scope w part env env'
  scope_body : ∀ {w e env env' names body m m'},
    c.state w m m' → c.scope w e env env' → (names, body) ∈ e.bodies →
      c.scope (c.grow w names) body (m.inside env) (m'.inside env')
  extend : ∀ {w e env env' names body m m' vs vs'},
    c.state w m m' → c.scope w e env env' → (names, body) ∈ e.bodies →
      vs.length = names.length → List.Forall₂ (c.value (c.grow w names)) vs vs' →
        c.state (c.grow w names) (m.extend env (names.zip vs)).2
          (m'.extend env' (names.zip vs')).2
  /-- frames of recursive bindings that are given up before they have values -/
  placeholders : ∀ {w env env' bindings body m m'},
    c.state w m m' → c.scope w (.bind .recursive bindings body) env env' →
      ∃ w', w ≤ w' ∧ c.state w' (m.extend env (bindings.map fun b => (b.1, .unspecified))).2
        (m'.extend env' (bindings.map fun b => (b.1, .unspecified))).2
  var : ∀ {w x env env' m m'}, c.state w m m' → c.scope w (.var x) env env' →
    Option.Rel (c.value w) (m.memory.store.get? env x) (m'.memory.store.get? env' x)
  set : ∀ {w x e env env' m m' v v'},
    c.state w m m' → c.scope w (.set x e) env env' → c.value w v v' →
      Option.Rel (fun id id' => c.state w (m.mapStore fun s => s.update id x v)
          (m'.mapStore fun s => s.update id' x v'))
        (m.memory.store.holder? env x) (m'.memory.store.holder? env' x)
  out_eq : ∀ {w m m'}, c.state w m m' → m.console.out = m'.console.out
  withOut : ∀ {w m m'}, c.state w m m' → ∀ out, c.state w (m.withOut out) (m'.withOut out)
  around : ∀ {w callee args env env' m m' call run run'},
    c.state w m m' → c.scope w (.apply callee args) env env' →
      (∀ w', w ≤ w' → ∀ s s', c.state w' s s' → Match c.state c.value w' (run s) (run' s')) →
        Match c.state c.value w
          (Trace.around (m.traceCount? env) (State.setTraceCount env) call Value.text run m)
          (Trace.around (m'.traceCount? env') (State.setTraceCount env') call Value.text run' m')

/-- A traced call, where the console and the indentation are the same on both sides
and the trace count is found alike. -/
theorem Coupling.match_around {c : Coupling W} {w : W} {m m' : State} {env env' : Env}
    (hc : Trace.SameOnBoth c.state)
    (hget : Option.Rel (c.value w) (m.memory.store.get? env Trace.countName)
      (m'.memory.store.get? env' Trace.countName))
    (hholder : ∀ n t t', c.state w t t' → Option.Rel (fun id id' =>
        c.state w (t.mapStore fun s => s.update id Trace.countName (.number n))
          (t'.mapStore fun s => s.update id' Trace.countName (.number n)))
      (t.memory.store.holder? env Trace.countName) (t'.memory.store.holder? env' Trace.countName))
    (hm : c.state w m m') {call : Unit → String} {run run' : State → Outcome State Value}
    (hrun : ∀ s s', c.state w s s' → Match c.state c.value w (run s) (run' s')) :
    Match c.state c.value w
      (Trace.around (m.traceCount? env) (State.setTraceCount env) call Value.text run m)
      (Trace.around (m'.traceCount? env') (State.setTraceCount env') call Value.text run' m') := by
  have hcount : m.traceCount? env = m'.traceCount? env' := by
    obtain ⟨h, h'⟩ | ⟨v, v', h, h', hv⟩ := none_or_some_of_rel hget
    · rw [State.traceCount?, State.traceCount?, h, h']
    · rw [State.traceCount?, State.traceCount?, h, h']
      cases hv <;> rfl
  have hspend : ∀ n t t', c.state w t t' →
      c.state w (State.setTraceCount env n t) (State.setTraceCount env' n t') := by
    intro n t t' ht
    obtain ⟨h, h'⟩ | ⟨id, id', h, h', hs⟩ := none_or_some_of_rel (hholder n t t' ht)
    · rw [State.setTraceCount, State.setTraceCount, h, h']
      exact ht
    · rw [State.setTraceCount, State.setTraceCount, h, h']
      exact hs
  rw [hcount]
  exact Trace.match_around_same hc (fun _ _ _ hv => hv.text_eq) hm hspend hrun

namespace Coupling.Simulates

variable {c : Coupling W} {w : W} {m m' : State} {env env' : Env}

theorem value_mono (hc : c.Simulates) {w w' : W} {v v' : Value} (hw : w ≤ w')
    (h : c.value w v v') : c.value w' v v' :=
  h.imp fun _ _ _ hf => hc.scope_mono hw hf

/-! ### Calls -/

theorem applyPrimitive (hc : c.Simulates) (p : Primitive) {args args' : List Value} (call : Exp)
    (hm : c.state w m m') (hargs : List.Forall₂ (c.value w) args args') :
    Match c.state c.value w (applyPrimitive p args call m)
      (Functional.applyPrimitive p args' call m') := by
  rw [Functional.applyPrimitive, Functional.applyPrimitive, ← hc.out_eq hm]
  have hrun := p.run_alike m.console.out hargs
  revert hrun
  generalize p.run args m.console.out = o, p.run args' m.console.out = o'
  rintro (⟨-, rfl, hv⟩ | ⟨-, rfl⟩ | ⟨-, rfl⟩)
  · exact .value le_rfl (hc.withOut hm _) hv
  · exact .fault le_rfl (hc.withOut hm _)
  · exact .unfinished le_rfl (hc.withOut hm _)

/-- Calls go together if the evaluations of function bodies do. -/
theorem applyValue (hc : c.Simulates) {body body' : Exp → Env → State → Outcome State Value}
    (hbody : ∀ w e env env' m m', c.state w m m' → c.scope w e env env' →
      Match c.state c.value w (body e env m) (body' e env' m'))
    {f f' : Value} {args args' : List Value} (call callee : Exp) (hm : c.state w m m')
    (hf : c.value w f f') (hargs : List.Forall₂ (c.value w) args args') :
    Match c.state c.value w (applyValue body call callee f args m)
      (Functional.applyValue body' call callee f' args' m') := by
  cases hf with
  | @closure lambda env env' henv =>
    have hmem : (lambda.formals, lambda.body) ∈ lambda.toExp.bodies := by
      simp [Lambda.toExp, Exp.bodies]
    simp only [Functional.applyValue, ← hargs.length_eq]
    split
    · -- the values persist in the world with the frame of the call
      next hlen =>
      have hargs' : List.Forall₂ (c.value (c.grow w lambda.formals)) args args' :=
        hargs.imp fun _ _ hv => hc.value_mono (hc.le_grow _ _) hv
      refine Match.of_le (hc.le_grow w lambda.formals) (hbody _ _ _ _ _ _ ?_ ?_)
      · exact hc.extend hm henv hmem hlen.symm hargs'
      · exact hc.scope_body hm henv hmem
    · exact .fault le_rfl hm
  | primitive p => exact hc.applyPrimitive p call hm hargs
  | pair ha hd =>
    simp only [Functional.applyValue, (Value.Alike.pair ha hd).text_eq]
    exact .fault le_rfl hm
  | _ => exact .fault le_rfl hm

/-! ### Evaluation -/

/-- The frames of sequential bindings.  The bindings that are left make up, with the
body, the expression that is still to be evaluated. -/
theorem bindEach (hc : c.Simulates) {evalIn : Exp → Env → State → Outcome State Value}
    (heval : ∀ w e env env' m m', c.state w m m' → c.scope w e env env' →
      Match c.state c.value w (evalIn e env m) (evalIn e env' m'))
    {bindings : List (String × Exp)} {body : Exp} (hm : c.state w m m')
    (hscope : c.scope w (.bind .sequential bindings body) env env') :
    Match c.state (fun w => c.scope w body) w (bindEach evalIn bindings env m)
      (Functional.bindEach evalIn bindings env' m') := by
  induction bindings generalizing w env env' m m' with
  | nil => exact .value le_rfl hm (hc.scope_part hscope (by simp [Exp.parts]))
  | cons b bs ih =>
    have hfirst : c.scope w b.2 env env' := hc.scope_part hscope (by simp [Exp.parts])
    refine (heval w b.2 env env' m m' hm hfirst).andThen ?_
    intro w₁ hw₁ v v' s s' hs hv
    have hrest : c.scope w₁ (.bind .sequential (b :: bs) body) env env' :=
      hc.scope_mono hw₁ hscope
    have hmem : ([b.1], Exp.bind .sequential bs body)
        ∈ (Exp.bind .sequential (b :: bs) body).bodies := by simp [Exp.bodies]
    have hv' : c.value (c.grow w₁ [b.1]) v v' := hc.value_mono (hc.le_grow _ _) hv
    exact Match.of_le (hc.le_grow w₁ [b.1])
      (ih (hc.extend hs hrest hmem rfl (.cons hv' .nil)) (hc.scope_body hs hrest hmem))

/-- The closures of recursive bindings go together. -/
theorem closures (hc : c.Simulates) {bindings : List (String × Exp)} {body : Exp}
    (hm : c.state w m m') (hscope : c.scope w (.bind .recursive bindings body) env env')
    (hlambda : nonLambda? bindings = none) :
    List.Forall₂ (c.value (c.grow w (bindings.map (·.1))))
      (bindings.map fun b => b.2.closeIn (m.inside env))
      (bindings.map fun b => b.2.closeIn (m'.inside env')) := by
  rw [List.forall₂_map_left_iff, List.forall₂_map_right_iff, List.forall₂_same]
  intro b hb
  have hmem : (bindings.map (·.1), b.2) ∈ (Exp.bind .recursive bindings body).bodies := by
    simp only [Exp.bodies, List.mem_cons, List.mem_map]
    exact .inr ⟨b, hb, rfl⟩
  have hbody := hc.scope_body hm hscope hmem
  have hb' := nonLambda?_eq_none_iff.1 hlambda b hb
  revert hbody hb'
  cases b.2 with
  | lambda label formals body => exact fun hbody _ => .closure hbody
  | _ => exact fun _ hb' => nomatch hb'

/-- One level of evaluation, from the levels below. -/
theorem eval_succ (hc : c.Simulates) (l : Limits) {left : Nat}
    (ih : ∀ w e env env' m m', c.state w m m' → c.scope w e env env' →
      Match c.state c.value w (eval l left e env m) (eval l left e env' m'))
    {e : Exp} (hm : c.state w m m') (hscope : c.scope w e env env') :
    Match c.state c.value w (eval l (left + 1) e env m) (eval l (left + 1) e env' m') := by
  -- a part of `e`, at any later world
  have hpart : ∀ part ∈ e.parts, ∀ w', w ≤ w' → ∀ s s', c.state w' s s' →
      Match c.state c.value w' (eval l left part env s) (eval l left part env' s') :=
    fun part hp w' hw' s s' hs =>
      ih w' part env env' s s' hs (hc.scope_mono hw' (hc.scope_part hscope hp))
  cases e with
  | literal d => exact .value le_rfl hm (.ofDatum d)
  | var x =>
    obtain ⟨h, h'⟩ | ⟨v, v', h, h', hv⟩ := none_or_some_of_rel (hc.var hm hscope)
    · simp only [eval, h, h']
      exact .fault le_rfl hm
    · simp only [eval, h, h']
      exact .value le_rfl hm hv
  | set x e =>
    refine (hpart e (by simp [Exp.parts]) w le_rfl m m' hm).andThen ?_
    intro w₁ hw₁ v v' s s' hs hv
    have hx := hc.set hs (hc.scope_mono hw₁ hscope) hv
    obtain ⟨h, h'⟩ | ⟨id, id', h, h', hs'⟩ := none_or_some_of_rel hx
    · rw [h, h']
      exact .fault le_rfl hs
    · rw [h, h']
      exact .value le_rfl hs' hv
  | cond test yes no =>
    refine (hpart test (by simp [Exp.parts]) w le_rfl m m' hm).andThen ?_
    intro w₁ hw₁ v v' s s' hs hv
    rw [← hv.isTrue_eq]
    split
    · exact hpart yes (by simp [Exp.parts]) w₁ hw₁ s s' hs
    · exact hpart no (by simp [Exp.parts]) w₁ hw₁ s s' hs
  | loop test body =>
    exact Match.evalWhile (fun _ => .bool false) (fun hv => hv.isTrue_eq) l.turns hm
      (hpart test (by simp [Exp.parts])) (hpart body (by simp [Exp.parts]))
  | block parts =>
    exact Match.evalLast hm (.bool false) fun w' hw' e he => hpart e he w' hw'
  | apply callee args =>
    -- the worlds `w ≤ w₁ ≤ w₂`: the start, after the callee, after the arguments
    refine (hpart callee (by simp [Exp.parts]) w le_rfl m m' hm).andThen ?_
    intro w₁ hw₁ f f' s s' hs hf
    refine (Match.evalEach (V := c.value) hc.value_mono hs fun w' hw' e he =>
      hpart e (by simp [Exp.parts, he]) w' (hw₁.trans hw')).andThen ?_
    rintro w₂ hw₂ vs vs' t t' ht ⟨-, hvs⟩
    have hw : w ≤ w₂ := hw₁.trans hw₂
    rw [← Value.Alike.map_text_eq hvs]
    refine hc.around ht (hc.scope_mono hw hscope) fun w' hw' u u' hu => ?_
    exact hc.applyValue ih _ _ hu (hc.value_mono (hw₂.trans hw') hf)
      (hvs.imp fun _ _ hv => hc.value_mono hw' hv)
  | lambda label formals body => exact .value le_rfl hm (.closure hscope)
  | bind kind bindings body =>
    cases kind with
    | plain =>
      refine (Match.evalEach (V := c.value) hc.value_mono hm fun w' hw' b hb =>
        hpart b.2 (List.mem_map_of_mem hb) w' hw').andThen ?_
      rintro w₁ hw₁ vs vs' s s' hs ⟨hlen, hvs⟩
      have hscope₁ := hc.scope_mono hw₁ hscope
      have hmem : (bindings.map (·.1), body) ∈ (Exp.bind .plain bindings body).bodies := by
        simp [Exp.bodies]
      have hvs' := hvs.imp fun _ _ hv => hc.value_mono (hc.le_grow w₁ (bindings.map (·.1))) hv
      refine Match.of_le (hc.le_grow w₁ (bindings.map (·.1))) (ih _ _ _ _ _ _ ?_ ?_)
      · exact hc.extend hs hscope₁ hmem (by simp [hlen]) hvs'
      · exact hc.scope_body hs hscope₁ hmem
    | sequential =>
      refine (hc.bindEach ih hm hscope).andThen ?_
      intro w₁ _ inner inner' s s' hs hbody
      exact ih w₁ body inner inner' s s' hs hbody
    | recursive =>
      cases hlambda : nonLambda? bindings with
      | some e =>
        simp only [eval, hlambda]
        exact .fault le_rfl hm
      | none =>
        have hmem : (bindings.map (·.1), body) ∈ (Exp.bind .recursive bindings body).bodies := by
          simp [Exp.bodies]
        -- closures are made one level further in, so with no level left there are none
        cases left with
        | zero =>
          rw [eval_recursive_zero hlambda, eval_recursive_zero hlambda]
          obtain ⟨w', hw', hs⟩ := hc.placeholders hm hscope
          exact .fault hw' hs
        | succ left =>
          rw [eval_recursive_succ hlambda, eval_recursive_succ hlambda]
          refine Match.of_le (hc.le_grow w (bindings.map (·.1))) (ih _ _ _ _ _ _ ?_ ?_)
          · exact hc.extend hm hscope hmem (by simp) (hc.closures hm hscope hlambda)
          · exact hc.scope_body hm hscope hmem

/-- **Evaluations that start together go together.** -/
theorem eval (hc : c.Simulates) (l : Limits) (left : Nat) (e : Exp) (hm : c.state w m m')
    (hscope : c.scope w e env env') :
    Match c.state c.value w (eval l left e env m) (Functional.eval l left e env' m') := by
  induction left generalizing w e env env' m m' with
  | zero => exact .fault le_rfl hm
  | succ left ih => exact hc.eval_succ l (fun w e env env' m m' hm hs => ih e hm hs) hm hscope

end Coupling.Simulates

end Primer.Functional
