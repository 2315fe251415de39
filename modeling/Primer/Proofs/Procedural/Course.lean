/-
Primer/Proofs/Procedural/Course.lean

The evaluations inside an evaluation of the procedural language.

As in the functional language, `Starts` lists the evaluations that an evaluation starts,
and an error that is about a call can be followed through them to the call in which it
arose (`Evaluation.exists_misapplies`).  No evaluation changes the function table, so all
that is evaluated is in the expression itself or in the body of a procedure that is in the
table from the beginning (`Evaluation.Includes.inProgram`).
-/
import Mathlib.Logic.Relation
import Primer.Proofs.Course
import Primer.Proofs.Procedural.Confinement
import Primer.Proofs.Procedural.Journal
import Primer.Proofs.Procedural.Spending

namespace Primer.Procedural

open Outcome

/-- An expression occurs in another one. -/
def Exp.Contains : Exp → Exp → Prop := Relation.ReflTransGen fun e e' => e' ∈ e.parts

/-! ### Evaluations -/

/-- An evaluation that is about to begin: so many levels are left. -/
structure Evaluation where
  left : Nat
  exp : Exp
  state : State

/-- How an evaluation ends. -/
def Evaluation.run (l : Limits) (c : Evaluation) : Outcome State Number :=
  eval l c.left c.exp c.state

namespace Evaluation

/-- In the evaluation of a call the function was found to be `f` and the arguments came to
`ns`, and `f` is applied to them in the last state. -/
inductive Applies (l : Limits) : Evaluation → Function → List Number → State → Prop
  | intro {left : Nat} {function : String} {args : List Exp} {m m₁ m₂ : State} {f : Function}
      {ns : List Number} :
      m.memory.functions.get? function = some f →
      evalEach (eval l left) args m = .value ns m₁ →
      Trace.Enters (m₁.memory.get? Trace.countName)
        (fun n m => { m with memory := m.memory.setTraceCount n })
        (fun _ => Trace.callText function (ns.map Number.text)) m₁ m₂ →
        Applies l ⟨left + 1, .call function args, m⟩ f ns m₂

/-- The evaluations that an evaluation starts itself, one level further in. -/
inductive Starts (l : Limits) : Evaluation → Evaluation → Prop
  | value {left : Nat} {x : String} {e : Exp} {m : State} :
      Starts l ⟨left + 1, .set x e, m⟩ ⟨left, e, m⟩
  | test {left : Nat} {test yes no : Exp} {m : State} :
      Starts l ⟨left + 1, .cond test yes no, m⟩ ⟨left, test, m⟩
  | branch {left : Nat} {test yes no : Exp} {m m' : State} {n : Number} :
      eval l left test m = .value n m' →
        Starts l ⟨left + 1, .cond test yes no, m⟩ ⟨left, if isTrue n then yes else no, m'⟩
  | again {left k : Nat} {test body : Exp} {m m' : State} :
      Turns isTrue (eval l left test) (eval l left body) k m m' → k < l.turns →
        Starts l ⟨left + 1, .loop test body, m⟩ ⟨left, test, m'⟩
  | turn {left k : Nat} {test body : Exp} {m m₁ m₂ : State} {n : Number} :
      Turns isTrue (eval l left test) (eval l left body) k m m₁ → k < l.turns →
      eval l left test m₁ = .value n m₂ → isTrue n = true →
        Starts l ⟨left + 1, .loop test body, m⟩ ⟨left, body, m₂⟩
  | part {left : Nat} {before after : List Exp} {e : Exp} {m m' : State} {ns : List Number} :
      evalEach (eval l left) before m = .value ns m' →
        Starts l ⟨left + 1, .block (before ++ e :: after), m⟩ ⟨left, e, m'⟩
  | argument {left : Nat} {function : String} {before after : List Exp} {e : Exp}
      {m m' : State} {f : Function} {ns : List Number} :
      m.memory.functions.get? function = some f →
      evalEach (eval l left) before m = .value ns m' →
        Starts l ⟨left + 1, .call function (before ++ e :: after), m⟩ ⟨left, e, m'⟩
  | body {left : Nat} {function : String} {args : List Exp} {m m' : State} {p : Procedure}
      {ns : List Number} :
      Applies l ⟨left + 1, .call function args, m⟩ (.procedure p) ns m' →
      p.formals.length = ns.length →
        Starts l ⟨left + 1, .call function args, m⟩
          ⟨left, p.body, { m' with memory := { m'.memory with scopes := .ofCall p ns } }⟩

/-- The evaluations in the course of an evaluation, itself among them. -/
def Includes (l : Limits) : Evaluation → Evaluation → Prop := Relation.ReflTransGen (Starts l)

/-- In the evaluation of a call, to apply the function is an error: no body is evaluated,
whichever way bodies are evaluated. -/
def Misapplies (l : Limits) (c : Evaluation) (function : String) (args : List Exp)
    (f : Function) (ns : List Number) (err : Error) : Prop :=
  c.exp = .call function args ∧
    ∃ m, c.Applies l f ns m ∧ ∀ body, applyFunction body c.exp f ns m = .fault err m

end Evaluation

/-! ### Where an error arises -/

section

variable {l : Limits} {left : Nat} {e : Exp} {m m' : State} {err : Error}

/-- An error of a primitive is one of the channel, or the channel is as it was. -/
theorem Primitive.ofChannel_of_run {p : Primitive} {args : List Number} {out out' : Channel}
    (h : p.run args out = .fault err out') : err.OfChannel out out' := by
  unfold run at h
  split at h
  case h_1 | h_2 | h_3 | h_4 => exact .inr (ofExcept_eq_fault h).2
  case h_5 | h_6 | h_7 => cases h
  case h_8 | h_9 => exact .inl (Channel.exists_reason_of_write (map_eq_fault_iff.1 h))
  case h_10 => exact Channel.ofChannel_of_emitCharacter (map_eq_fault_iff.1 h)
  case h_11 =>
    cases h
    exact .inr rfl

/-- The error of an evaluation is that of an evaluation which it starts, or it arises when a
function is applied. -/
def Traced (l : Limits) (c : Evaluation) (err : Error) : Prop :=
  (∃ c' m, c.Starts l c' ∧ c'.run l = .fault err m) ∨
    ∃ function args f ns, c.Misapplies l function args f ns err

theorem traced_call {function : String} {args : List Exp}
    (h : eval l (left + 1) (.call function args) m = .fault err m')
    (hcall : err.call?.isSome = true) : Traced l ⟨left + 1, .call function args, m⟩ err := by
  rw [eval] at h
  split at h
  · cases h
    cases hcall
  next f hf =>
  rcases andThen_eq_fault_iff.1 h with hns | ⟨ns, m₁, hns, h⟩
  · obtain ⟨before, e, after, bs, s, rfl, hbefore, hfault⟩ := exists_fault_of_evalEach hns
    exact .inl ⟨_, _, .argument hf hbefore, hfault⟩
  rcases Trace.exists_fault_of_around h with ⟨reason, rfl⟩ | ⟨m₂, s, henter, hrun⟩
  · cases hcall
  have happlies := Evaluation.Applies.intro hf hns henter
  cases f with
  | procedure p =>
    simp only [applyFunction] at hrun
    split at hrun
    · next hlen =>
      obtain ⟨s', hbody, -⟩ := mapState_eq_fault_iff.1 hrun
      exact .inl ⟨_, _, .body happlies hlen, hbody⟩
    · next hlen =>
      cases hrun
      exact .inr ⟨function, args, _, ns, rfl, m₂, happlies, fun body => if_neg hlen⟩
  | primitive p =>
    refine .inr ⟨function, args, _, ns, rfl, m₂, happlies, fun body => ?_⟩
    obtain ⟨err', hrun', rfl⟩ := mapError_eq_fault_iff.1 hrun
    obtain ⟨out, hprimitive, -⟩ := mapState_eq_fault_iff.1 hrun'
    -- an error of the channel has no place for a call
    rcases Primitive.ofChannel_of_run hprimitive with ⟨reason, rfl⟩ | rfl
    · cases hcall
    · simp only [applyFunction, applyPrimitive, hprimitive]
      rfl

/-- One level of evaluation. -/
theorem traced_of_fault (h : eval l (left + 1) e m = .fault err m')
    (hcall : err.call?.isSome = true) : Traced l ⟨left + 1, e, m⟩ err := by
  cases e with
  | literal n => cases h
  | var x =>
    rw [eval] at h
    split at h
    · cases h
    · cases h
      cases hcall
  | set x e =>
    rw [eval] at h
    rcases andThen_eq_fault_iff.1 h with he | ⟨n, m₁, -, hx⟩
    · exact .inl ⟨_, _, .value, he⟩
    · split at hx
      · cases hx
      · cases hx
        cases hcall
  | cond test yes no =>
    rw [eval] at h
    rcases andThen_eq_fault_iff.1 h with htest | ⟨n, m₁, htest, hbranch⟩
    · exact .inl ⟨_, _, .test, htest⟩
    · refine .inl ⟨_, m', .branch htest, ?_⟩
      split at hbranch <;> simp_all [Evaluation.run]
  | loop test body =>
    rw [eval] at h
    obtain ⟨k, m₁, hlt, hturns, htest | ⟨n, m₂, htest, hn, hbody⟩⟩ := exists_fault_of_evalWhile h
    · exact .inl ⟨_, _, .again hturns hlt, htest⟩
    · exact .inl ⟨_, _, .turn hturns hlt htest hn, hbody⟩
  | block parts =>
    rw [eval] at h
    obtain ⟨before, e, after, bs, s, rfl, hbefore, hfault⟩ := exists_fault_of_evalLast h
    exact .inl ⟨_, _, .part hbefore, hfault⟩
  | call function args => exact traced_call h hcall

theorem Evaluation.Starts.left_eq {c c' : Evaluation} (h : c.Starts l c') :
    c.left = c'.left + 1 := by
  cases h <;> rfl

/-- **An error that is about a call arose in a call.**  The call is come to in the course of
the evaluation. -/
theorem Evaluation.exists_misapplies {c : Evaluation} (h : c.run l = .fault err m)
    (hcall : err.call?.isSome = true) : ∃ c' function args f ns,
      c.Includes l c' ∧ c'.Misapplies l function args f ns err := by
  obtain ⟨left, e, m₀⟩ := c
  induction left generalizing e m₀ m with
  | zero =>
    cases h
    cases hcall
  | succ left ih =>
    rcases traced_of_fault h hcall with ⟨⟨left', e', m₁⟩, s, hstarts, hrun⟩ | hmis
    · obtain rfl : left = left' := Nat.succ.inj hstarts.left_eq
      obtain ⟨c', function, args, f, ns, hincludes, hmis⟩ := ih e' m₁ hrun
      exact ⟨c', function, args, f, ns, hincludes.head hstarts, hmis⟩
    · obtain ⟨function, args, f, ns, hmis⟩ := hmis
      exact ⟨_, function, args, f, ns, .refl, hmis⟩

end

/-! ### The code that is evaluated -/

/-- An expression is in the program: it occurs in `e` or in the body of a procedure. -/
def InProgram (table : Bindings Function) (e e' : Exp) : Prop :=
  e.Contains e' ∨
    ∃ function p, table.get? function = some (.procedure p) ∧ p.body.Contains e'

/-- The run leaves the function table as it is. -/
abbrev KeepsTable {α : Type} (run : State → Outcome State α) : Prop :=
  ∀ table, Keeps (fun m => m.memory.functions = table) run

section

variable {l : Limits} {left : Nat} {m m' : State} {c c' : Evaluation} {e e' : Exp}
  {table : Bindings Function}

theorem keepsTable_eval (l : Limits) (left : Nat) (e : Exp) : KeepsTable (eval l left e) :=
  fun _ m hm => (stays_eval l left (List.Subset.refl _) m.memory m (.refl _)).functions.trans hm

theorem functions_of_eval {n : Number} (h : eval l left e m = .value n m') :
    m'.memory.functions = m.memory.functions := by
  have hkeeps := keepsTable_eval l left e m.memory.functions m rfl
  rwa [h] at hkeeps

theorem functions_of_evalEach {es : List Exp} {ns : List Number}
    (h : evalEach (eval l left) es m = .value ns m') :
    m'.memory.functions = m.memory.functions := by
  have heach := fun e (_ : e ∈ es) => keepsTable_eval l left e m.memory.functions
  have hkeeps := Keeps.evalEach heach m rfl
  rwa [h] at hkeeps

theorem functions_of_turns {test body : Exp} {k : Nat}
    (h : Turns isTrue (eval l left test) (eval l left body) k m m') :
    m'.memory.functions = m.memory.functions :=
  h.keeps (P := fun s => s.memory.functions = m.memory.functions)
    (fun _ _ _ hs hrun => (functions_of_eval hrun).trans hs)
    (fun _ _ _ hs hrun => (functions_of_eval hrun).trans hs) rfl

theorem functions_of_applies {f : Function} {ns : List Number} (h : c.Applies l f ns m) :
    m.memory.functions = c.state.memory.functions := by
  cases h with
  | intro _ hargs henters =>
    have hm := functions_of_evalEach hargs
    exact henters.keeps (P := fun memory => memory.functions = _) hm
      fun n s hs => (functions_setTraceCount ..).trans hs

/-- What is started is evaluated with the same function table, and it is a part of the
expression or the body of a procedure. -/
theorem Evaluation.Starts.functions_and_exp (h : c.Starts l c') :
    c'.state.memory.functions = c.state.memory.functions ∧
      (c'.exp ∈ c.exp.parts ∨ ∃ function p,
        c.state.memory.functions.get? function = some (.procedure p) ∧ c'.exp = p.body) := by
  cases h with
  | value => exact ⟨rfl, .inl (by simp [Exp.parts])⟩
  | test => exact ⟨rfl, .inl (by simp [Exp.parts])⟩
  | @branch _ _ _ _ _ _ n htest =>
    refine ⟨functions_of_eval htest, .inl ?_⟩
    cases isTrue n <;> simp [Exp.parts]
  | again hturns => exact ⟨functions_of_turns hturns, .inl (by simp [Exp.parts])⟩
  | turn hturns _ htest =>
    exact ⟨(functions_of_eval htest).trans (functions_of_turns hturns), .inl (by simp [Exp.parts])⟩
  | part hbefore => exact ⟨functions_of_evalEach hbefore, .inl (by simp [Exp.parts])⟩
  | argument _ hbefore => exact ⟨functions_of_evalEach hbefore, .inl (by simp [Exp.parts])⟩
  | @body _ function _ _ _ p _ happlies _ =>
    have htable := functions_of_applies happlies
    refine ⟨htable, .inr ?_⟩
    cases happlies with
    | intro hf => exact ⟨function, p, hf, rfl⟩

/-- **What is evaluated is in the program.** -/
theorem Evaluation.Includes.inProgram (h : c.Includes l c') :
    c'.state.memory.functions = c.state.memory.functions ∧
      InProgram c.state.memory.functions c.exp c'.exp := by
  induction h with
  | refl => exact ⟨rfl, .inl .refl⟩
  | tail _ hstarts ih =>
    obtain ⟨htable, hin⟩ := ih
    obtain ⟨hfunctions, hpart | ⟨function, p, hp, heq⟩⟩ := hstarts.functions_and_exp
    · refine ⟨hfunctions.trans htable, hin.imp (fun h => h.tail hpart) ?_⟩
      rintro ⟨function, p, hp, hbody⟩
      exact ⟨function, p, hp, hbody.tail hpart⟩
    · exact ⟨hfunctions.trans htable, .inr ⟨function, p, htable ▸ hp, heq ▸ .refl⟩⟩

end

end Primer.Procedural
