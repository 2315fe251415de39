/-
Primer/Proofs/Functional/Course.lean

The evaluations inside an evaluation.

To evaluate an expression is to evaluate others: its parts, the initial values of its
bindings, the bodies of functions that it calls.  `Starts` lists them, each with the
state in which it begins, and `Includes` goes on with the evaluations that these start
in turn.

An error of an evaluation is one of those inside it, as long as it does not arise from the
expression itself.  So an error that is about a call can be followed to the application in
which it arose (`Evaluation.exists_misapplies`).
-/
import Mathlib.Logic.Relation
import Primer.Proofs.Course
import Primer.Proofs.Functional.Simulation

namespace Primer.Functional

open Outcome

/-! ### Expressions inside others -/

/-- An expression occurs in another one.  What is left of sequential bindings after the first
ones counts as an expression too. -/
def Exp.Contains : Exp → Exp → Prop :=
  Relation.ReflTransGen fun e e' => e' ∈ e.parts ∨ ∃ names, (names, e') ∈ e.bodies

/-! ### Evaluations -/

/-- An evaluation that is about to begin: so many levels are left. -/
structure Evaluation where
  left : Nat
  exp : Exp
  env : Env
  state : State

/-- How an evaluation ends. -/
def Evaluation.run (l : Limits) (c : Evaluation) : Outcome State Value :=
  eval l c.left c.exp c.env c.state

namespace Evaluation

/-- In the evaluation of an application the callee came to `f` and the arguments to `vs`, and
`f` is applied to them in the last state. -/
inductive Applies (l : Limits) : Evaluation → Value → List Value → State → Prop
  | intro {left : Nat} {callee : Exp} {args : List Exp} {env : Env} {m m₁ m₂ m₃ : State}
      {f : Value} {vs : List Value} :
      eval l left callee env m = .value f m₁ →
      evalEach (fun e m => eval l left e env m) args m₁ = .value vs m₂ →
      Trace.Enters (m₂.traceCount? env) (State.setTraceCount env)
        (fun _ => Trace.callText callee.text (vs.map Value.text)) m₂ m₃ →
        Applies l ⟨left + 1, .apply callee args, env, m⟩ f vs m₃

/-- The evaluations that an evaluation starts itself, one level further in. -/
inductive Starts (l : Limits) : Evaluation → Evaluation → Prop
  | value {left : Nat} {x : String} {e : Exp} {env : Env} {m : State} :
      Starts l ⟨left + 1, .set x e, env, m⟩ ⟨left, e, env, m⟩
  | test {left : Nat} {test yes no : Exp} {env : Env} {m : State} :
      Starts l ⟨left + 1, .cond test yes no, env, m⟩ ⟨left, test, env, m⟩
  | branch {left : Nat} {test yes no : Exp} {env : Env} {m m' : State} {v : Value} :
      eval l left test env m = .value v m' →
        Starts l ⟨left + 1, .cond test yes no, env, m⟩
          ⟨left, if v.isTrue then yes else no, env, m'⟩
  | again {left n : Nat} {test body : Exp} {env : Env} {m m' : State} :
      Turns Value.isTrue (eval l left test env) (eval l left body env) n m m' → n < l.turns →
        Starts l ⟨left + 1, .loop test body, env, m⟩ ⟨left, test, env, m'⟩
  | turn {left n : Nat} {test body : Exp} {env : Env} {m m₁ m₂ : State} {v : Value} :
      Turns Value.isTrue (eval l left test env) (eval l left body env) n m m₁ → n < l.turns →
      eval l left test env m₁ = .value v m₂ → v.isTrue = true →
        Starts l ⟨left + 1, .loop test body, env, m⟩ ⟨left, body, env, m₂⟩
  | part {left : Nat} {before after : List Exp} {e : Exp} {env : Env} {m m' : State}
      {vs : List Value} :
      evalEach (fun e m => eval l left e env m) before m = .value vs m' →
        Starts l ⟨left + 1, .block (before ++ e :: after), env, m⟩ ⟨left, e, env, m'⟩
  | callee {left : Nat} {callee : Exp} {args : List Exp} {env : Env} {m : State} :
      Starts l ⟨left + 1, .apply callee args, env, m⟩ ⟨left, callee, env, m⟩
  | argument {left : Nat} {callee : Exp} {before after : List Exp} {e : Exp} {env : Env}
      {m m₁ m₂ : State} {f : Value} {vs : List Value} :
      eval l left callee env m = .value f m₁ →
      evalEach (fun e m => eval l left e env m) before m₁ = .value vs m₂ →
        Starts l ⟨left + 1, .apply callee (before ++ e :: after), env, m⟩ ⟨left, e, env, m₂⟩
  | body {left : Nat} {callee : Exp} {args : List Exp} {env env' : Env} {m m' : State}
      {lambda : Lambda} {vs : List Value} :
      Applies l ⟨left + 1, .apply callee args, env, m⟩ (.closure lambda env') vs m' →
      lambda.formals.length = vs.length →
        Starts l ⟨left + 1, .apply callee args, env, m⟩
          ⟨left, lambda.body, m'.inside env', (m'.extend env' (lambda.formals.zip vs)).2⟩
  | initial {left : Nat} {before after : List (String × Exp)} {b : String × Exp} {body : Exp}
      {env : Env} {m m' : State} {vs : List Value} :
      evalEach (fun b m => eval l left b.2 env m) before m = .value vs m' →
        Starts l ⟨left + 1, .bind .plain (before ++ b :: after) body, env, m⟩
          ⟨left, b.2, env, m'⟩
  | inside {left : Nat} {bindings : List (String × Exp)} {body : Exp} {env : Env}
      {m m' : State} {vs : List Value} :
      evalEach (fun b m => eval l left b.2 env m) bindings m = .value vs m' →
        Starts l ⟨left + 1, .bind .plain bindings body, env, m⟩
          ⟨left, body, m'.inside env, (m'.extend env ((bindings.map (·.1)).zip vs)).2⟩
  | nextInitial {left : Nat} {before after : List (String × Exp)} {b : String × Exp} {body : Exp}
      {env inner : Env} {m m' : State} :
      bindEach (eval l left) before env m = .value inner m' →
        Starts l ⟨left + 1, .bind .sequential (before ++ b :: after) body, env, m⟩
          ⟨left, b.2, inner, m'⟩
  | insideAll {left : Nat} {bindings : List (String × Exp)} {body : Exp} {env inner : Env}
      {m m' : State} :
      bindEach (eval l left) bindings env m = .value inner m' →
        Starts l ⟨left + 1, .bind .sequential bindings body, env, m⟩ ⟨left, body, inner, m'⟩
  | closed {left : Nat} {before after : List (String × Exp)} {b : String × Exp} {body : Exp}
      {env : Env} {m m' : State} {vs : List Value} :
      nonLambda? (before ++ b :: after) = none →
      evalEach (fun b s => eval l left b.2 (m.inside env) s) before
        (m.extend env ((before ++ b :: after).map fun b => (b.1, .unspecified))).2
          = .value vs m' →
        Starts l ⟨left + 1, .bind .recursive (before ++ b :: after) body, env, m⟩
          ⟨left, b.2, m.inside env, m'⟩
  | insideOwn {left : Nat} {bindings : List (String × Exp)} {body : Exp} {env : Env}
      {m m' : State} {vs : List Value} :
      nonLambda? bindings = none →
      evalEach (fun b s => eval l left b.2 (m.inside env) s) bindings
        (m.extend env (bindings.map fun b => (b.1, .unspecified))).2 = .value vs m' →
        Starts l ⟨left + 1, .bind .recursive bindings body, env, m⟩
          ⟨left, body, m.inside env, assignAll (m.inside env) ((bindings.map (·.1)).zip vs) m'⟩

/-- The evaluations in the course of an evaluation, itself among them. -/
def Includes (l : Limits) : Evaluation → Evaluation → Prop := Relation.ReflTransGen (Starts l)

end Evaluation

/-! ### Where an error arises -/

/-- In the evaluation of an application, to apply the function is an error: no body is
evaluated, whichever way bodies are evaluated. -/
def Evaluation.Misapplies (l : Limits) (c : Evaluation) (callee : Exp) (args : List Exp)
    (f : Value) (vs : List Value) (err : Error) : Prop :=
  c.exp = .apply callee args ∧
    ∃ m, c.Applies l f vs m ∧ ∀ body, applyValue body c.exp callee f vs m = .fault err m

section

variable {l : Limits} {left : Nat} {e : Exp} {env : Env} {m m' : State} {err : Error}

/-- An error of sequential bindings is that of some initial value, after the ones before
it. -/
theorem exists_fault_of_bindEach {evalIn : Exp → Env → State → Outcome State Value}
    {bindings : List (String × Exp)} (h : bindEach evalIn bindings env m = .fault err m') :
    ∃ before b after inner s, bindings = before ++ b :: after ∧
      bindEach evalIn before env m = .value inner s ∧ evalIn b.2 inner s = .fault err m' := by
  induction bindings generalizing env m with
  | nil => cases h
  | cons b bs ih =>
    rcases andThen_eq_fault_iff.1 h with hfirst | ⟨v, s, hfirst, hrest⟩
    · exact ⟨[], b, bs, env, m, rfl, rfl, hfirst⟩
    · obtain ⟨before, b', after, inner, s', rfl, hbefore, hfault⟩ := ih hrest
      refine ⟨b :: before, b', after, inner, s', rfl, ?_, hfault⟩
      rw [bindEach, hfirst, andThen_value]
      exact hbefore

/-- An error of a primitive is one of the channel, or the channel is as it was. -/
theorem Primitive.ofChannel_of_run {p : Primitive} {args : List Value} {out out' : Channel}
    (h : p.run args out = .fault err out') : err.OfChannel out out' := by
  unfold run at h
  split at h
  · exact .inl (Channel.exists_reason_of_write (map_eq_fault_iff.1 h))
  · exact .inl (Channel.exists_reason_of_writeText (map_eq_fault_iff.1 h))
  · exact .inl (Channel.exists_reason_of_writeText (map_eq_fault_iff.1 h))
  · rcases andThen_eq_fault_iff.1 h with hoperand | ⟨n, out₁, hoperand, hprint⟩
    · exact .inr (ofExcept_eq_fault hoperand).2
    · obtain rfl : out₁ = out := by
        have hstate := congrArg Outcome.state hoperand
        rw [state_ofExcept] at hstate
        exact hstate.symm
      exact Channel.ofChannel_of_emitCharacter (map_eq_fault_iff.1 hprint)
  · exact .inr (ofExcept_eq_fault h).2

/-- The error of an evaluation is that of an evaluation which it starts, or it arises when a
function is applied. -/
def Traced (l : Limits) (c : Evaluation) (err : Error) : Prop :=
  (∃ c' m, c.Starts l c' ∧ c'.run l = .fault err m) ∨
    ∃ callee args f vs, c.Misapplies l callee args f vs err

theorem traced_apply {callee : Exp} {args : List Exp}
    (h : eval l (left + 1) (.apply callee args) env m = .fault err m')
    (hcall : err.call?.isSome = true) : Traced l ⟨left + 1, .apply callee args, env, m⟩ err := by
  rw [eval] at h
  rcases andThen_eq_fault_iff.1 h with hf | ⟨f, m₁, hf, h⟩
  · exact .inl ⟨_, _, .callee, hf⟩
  rcases andThen_eq_fault_iff.1 h with hvs | ⟨vs, m₂, hvs, h⟩
  · obtain ⟨before, e, after, bs, s, rfl, hbefore, hfault⟩ := exists_fault_of_evalEach hvs
    exact .inl ⟨_, _, .argument hf hbefore, hfault⟩
  rcases Trace.exists_fault_of_around h with ⟨reason, rfl⟩ | ⟨m₃, s, henter, hrun⟩
  · cases hcall
  have happlies := Evaluation.Applies.intro hf hvs henter
  cases f with
  | closure lambda env' =>
    simp only [applyValue] at hrun
    split at hrun
    · next hlen => exact .inl ⟨_, _, .body happlies hlen, hrun⟩
    · next hlen =>
      cases hrun
      exact .inr ⟨callee, args, _, vs, rfl, m₃, happlies, fun body => if_neg hlen⟩
  | primitive p =>
    refine .inr ⟨callee, args, _, vs, rfl, m₃, happlies, fun body => ?_⟩
    obtain ⟨err', hrun', rfl⟩ := mapError_eq_fault_iff.1 hrun
    obtain ⟨out, hprimitive, -⟩ := mapState_eq_fault_iff.1 hrun'
    -- an error of the channel has no place for a call
    rcases Primitive.ofChannel_of_run hprimitive with ⟨reason, rfl⟩ | rfl
    · cases hcall
    · simp only [applyValue, applyPrimitive, hprimitive]
      rfl
  | _ =>
    cases hrun
    cases hcall

theorem traced_bind {kind : LetKind} {bindings : List (String × Exp)} {body : Exp}
    (h : eval l (left + 1) (.bind kind bindings body) env m = .fault err m')
    (hcall : err.call?.isSome = true) : Traced l ⟨left + 1, .bind kind bindings body, env, m⟩ err := by
  cases kind with
  | plain =>
    rw [eval] at h
    rcases andThen_eq_fault_iff.1 h with hvs | ⟨vs, m₁, hvs, hbody⟩
    · obtain ⟨before, b, after, bs, s, rfl, hbefore, hfault⟩ := exists_fault_of_evalEach hvs
      exact .inl ⟨_, _, .initial hbefore, hfault⟩
    · exact .inl ⟨_, _, .inside hvs, hbody⟩
  | sequential =>
    rw [eval] at h
    rcases andThen_eq_fault_iff.1 h with hinner | ⟨inner, m₁, hinner, hbody⟩
    · obtain ⟨before, b, after, inner, s, rfl, hbefore, hfault⟩ := exists_fault_of_bindEach hinner
      exact .inl ⟨_, _, .nextInitial hbefore, hfault⟩
    · exact .inl ⟨_, _, .insideAll hinner, hbody⟩
  | recursive =>
    rw [eval] at h
    cases hlambda : nonLambda? bindings with
    | some e =>
      simp only [hlambda] at h
      cases h
      cases hcall
    | none =>
      simp only [hlambda] at h
      rcases andThen_eq_fault_iff.1 h with hvs | ⟨vs, m₁, hvs, hbody⟩
      · obtain ⟨before, b, after, bs, s, rfl, hbefore, hfault⟩ := exists_fault_of_evalEach hvs
        exact .inl ⟨_, _, .closed hlambda hbefore, hfault⟩
      · exact .inl ⟨_, _, .insideOwn hlambda hvs, hbody⟩

/-- One level of evaluation. -/
theorem traced_of_fault (h : eval l (left + 1) e env m = .fault err m')
    (hcall : err.call?.isSome = true) : Traced l ⟨left + 1, e, env, m⟩ err := by
  cases e with
  | literal d => cases h
  | var x =>
    rw [eval] at h
    split at h
    · cases h
    · cases h
      cases hcall
  | set x e =>
    rw [eval] at h
    rcases andThen_eq_fault_iff.1 h with he | ⟨v, m₁, -, hx⟩
    · exact .inl ⟨_, _, .value, he⟩
    · split at hx
      · cases hx
      · cases hx
        cases hcall
  | cond test yes no =>
    rw [eval] at h
    rcases andThen_eq_fault_iff.1 h with htest | ⟨v, m₁, htest, hbranch⟩
    · exact .inl ⟨_, _, .test, htest⟩
    · refine .inl ⟨_, m', .branch htest, ?_⟩
      split at hbranch <;> simp_all [Evaluation.run]
  | loop test body =>
    rw [eval] at h
    obtain ⟨n, m₁, hlt, hturns, htest | ⟨v, m₂, htest, hv, hbody⟩⟩ := exists_fault_of_evalWhile h
    · exact .inl ⟨_, _, .again hturns hlt, htest⟩
    · exact .inl ⟨_, _, .turn hturns hlt htest hv, hbody⟩
  | block parts =>
    rw [eval] at h
    obtain ⟨before, e, after, bs, s, rfl, hbefore, hfault⟩ := exists_fault_of_evalLast h
    exact .inl ⟨_, _, .part hbefore, hfault⟩
  | apply callee args => exact traced_apply h hcall
  | lambda label formals body => cases h
  | bind kind bindings body => exact traced_bind h hcall

theorem Evaluation.Starts.left_eq {c c' : Evaluation} (h : c.Starts l c') :
    c.left = c'.left + 1 := by
  cases h <;> rfl

/-- **An error that is about a call arose in an application.**  The application is come to in
the course of the evaluation. -/
theorem Evaluation.exists_misapplies {c : Evaluation} (h : c.run l = .fault err m)
    (hcall : err.call?.isSome = true) : ∃ c' callee args f vs,
      c.Includes l c' ∧ c'.Misapplies l callee args f vs err := by
  obtain ⟨left, e, env, m₀⟩ := c
  induction left generalizing e env m₀ m with
  | zero =>
    cases h
    cases hcall
  | succ left ih =>
    rcases traced_of_fault h hcall with ⟨⟨left', e', env', m₁⟩, s, hstarts, hrun⟩ | hmis
    · obtain rfl : left = left' := Nat.succ.inj hstarts.left_eq
      obtain ⟨c', callee, args, f, vs, hincludes, hmis⟩ := ih e' env' m₁ hrun
      exact ⟨c', callee, args, f, vs, hincludes.head hstarts, hmis⟩
    · obtain ⟨callee, args, f, vs, hmis⟩ := hmis
      exact ⟨_, callee, args, f, vs, .refl, hmis⟩

end

end Primer.Functional
