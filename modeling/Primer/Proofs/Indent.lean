/-
Primer/Proofs/Indent.lean

The indentation of the trace is balanced: in both languages an evaluation that
ends, in a value or in an error, leaves the indentation as it found it.  Every
call that is entered under the trace is left again on both ways out, also when the
line after it cannot be written; where a line before a call cannot be written, the
call was never entered.

An evaluation that is still unfinished may be inside any number of calls, so
nothing is said about it.
-/
import Primer.Functional.Eval
import Primer.Procedural.Eval
import Primer.Proofs.Cutoff

namespace Primer

variable {μ α β ι : Type}

namespace Outcome

/-- A computation that ended did so at the indentation `n`. -/
def Level (n : Nat) : Outcome (Machine μ) α → Prop
  | .value _ m => m.indent = n
  | .fault _ m => m.indent = n
  | .unfinished _ => True

namespace Level

variable {n : Nat}

theorem of_state {o : Outcome (Machine μ) α} (h : o.state.indent = n) : Level n o := by
  cases o with
  | value a s => exact h
  | fault e s => exact h
  | unfinished s => trivial

theorem map {f : α → β} {o : Outcome (Machine μ) α} (h : Level n o) : Level n (o.map f) := by
  cases o <;> exact h

theorem andThen {o : Outcome (Machine μ) α} {f : α → Machine μ → Outcome (Machine μ) β}
    (h : Level n o) (hf : ∀ a s, s.indent = n → Level n (f a s)) : Level n (o.andThen f) := by
  cases o with
  | value a s => exact hf a s h
  | fault e s => exact h
  | unfinished s => trivial

theorem evalEach {f : ι → Machine μ → Outcome (Machine μ) α}
    (hf : ∀ a s, Level s.indent (f a s)) (as : List ι) (m : Machine μ) :
    Level m.indent (Primer.evalEach f as m) := by
  induction as generalizing m with
  | nil => exact rfl
  | cons a as ih =>
    refine (hf a m).andThen fun b s hs => ?_
    rw [← hs]
    exact (ih s).andThen fun bs t ht => ht

theorem evalLast {f : ι → Machine μ → Outcome (Machine μ) α}
    (hf : ∀ a s, Level s.indent (f a s)) (last : α) (as : List ι) (m : Machine μ) :
    Level m.indent (Primer.evalLast f last as m) := by
  induction as generalizing m last with
  | nil => exact rfl
  | cons a as ih =>
    refine (hf a m).andThen fun b s hs => ?_
    rw [← hs]
    exact ih b s

theorem evalWhile {isTrue : α → Bool} {done : α} {test body : Machine μ → Outcome (Machine μ) α}
    (htest : ∀ s, Level s.indent (test s)) (hbody : ∀ s, Level s.indent (body s)) (turns : Nat)
    (m : Machine μ) : Level m.indent (Primer.evalWhile isTrue done test body turns m) := by
  induction turns generalizing m with
  | zero => trivial
  | succ turns ih =>
    refine (htest m).andThen fun a s hs => ?_
    rw [← hs]
    split
    · refine (hbody s).andThen fun _ t ht => ?_
      rw [← ht]
      exact ih t
    · exact rfl

end Level

end Outcome

open Outcome

/-- A line of the trace leaves the indentation alone. -/
theorem level_diagLine (m : Machine μ) (line : Unit → String) :
    Level m.indent (m.diagLine line) := by
  refine .of_state ?_
  rw [Machine.diagLine, state_mapState]
  rfl

/-- A traced call indents by two and takes the two back. -/
theorem Trace.level_leaveCall {n : Nat} {o : Outcome (Machine μ) α} (call : String)
    (render : α → String) (h : Level (n + 2) o) : Level n (leaveCall call render o) := by
  have hout : ∀ m : Machine μ, m.indent = n + 2 → outdent m.indent = n := by
    intro m hm
    rw [hm, outdent, Nat.add_sub_cancel]
  cases o with
  | value a m =>
    have hline := level_diagLine { m with indent := outdent m.indent } fun _ =>
      closingLine (outdent m.indent) call (render a)
    rw [show ({ m with indent := outdent m.indent } : Machine μ).indent = n from hout m h] at hline
    exact hline.map
  | fault e m => exact hout m h
  | unfinished m => trivial

/-- A call that is entered under the trace is two further in; one that is not, or that
cannot be entered, is where it was. -/
theorem Trace.indent_enter (count : Option Number) {spend : Number → Machine μ → Machine μ}
    (hspend : ∀ n s, (spend n s).indent = s.indent) (call : Unit → String) (m : Machine μ) :
    match enter count spend call m with
    | .value traced s => s.indent = if traced then m.indent + 2 else m.indent
    | .fault _ s => s.indent = m.indent
    | .unfinished _ => True := by
  cases count with
  | none => rfl
  | some n =>
    by_cases hn : 0 < n.val
    · have hopening := level_diagLine m fun _ => openingLine m.indent (call ())
      simp only [enter, hn, dite_true]
      generalize m.diagLine (fun _ => openingLine m.indent (call ())) = o at hopening ⊢
      cases o with
      | value _ s =>
        have hs : (spend (n.pred hn) s).indent = m.indent := (hspend _ s).trans hopening
        have hnotice : Level m.indent (noteLast m.indent (n.pred hn) (spend (n.pred hn) s)) := by
          unfold noteLast
          split
          · exact hs ▸ level_diagLine _ _
          · exact hs
        rw [andThen_value]
        generalize noteLast m.indent (n.pred hn) (spend (n.pred hn) s) = o' at hnotice ⊢
        cases o' with
        | value _ t => rfl
        | fault e t => exact hnotice
        | unfinished t => trivial
      | fault e s => exact hopening
      | unfinished s => trivial
    · simp [enter, hn]

theorem Trace.level_around {count : Option Number} {spend : Number → Machine μ → Machine μ}
    (hspend : ∀ n s, (spend n s).indent = s.indent) {call : Unit → String}
    {render : α → String} {run : Machine μ → Outcome (Machine μ) α}
    (hrun : ∀ s, Level s.indent (run s)) (m : Machine μ) :
    Level m.indent (around count spend call render run m) := by
  have henter := indent_enter count hspend call m
  unfold around
  generalize enter count spend call m = o at henter
  cases o with
  | value traced s =>
    cases traced with
    | true =>
      have h : s.indent = m.indent + 2 := henter
      exact level_leaveCall _ _ (h ▸ hrun s)
    | false =>
      have h : s.indent = m.indent := henter
      exact h ▸ hrun s
  | fault e s => exact henter
  | unfinished s => trivial

/-! ### The functional language -/

namespace Functional

theorem level_applyValue {body : Exp → Env → State → Outcome State Value}
    (hbody : ∀ e env m, Level m.indent (body e env m)) (call callee : Exp) (f : Value)
    (args : List Value) (m : State) : Level m.indent (applyValue body call callee f args m) := by
  cases f with
  | closure lambda env =>
    simp only [applyValue]
    split
    · exact hbody lambda.body _ (m.extend env _).2
    · exact rfl
  | primitive p =>
    refine .of_state ?_
    rw [applyValue, applyPrimitive, state_mapError, state_mapState]
    rfl
  | _ => exact rfl

theorem level_bindEach {evalIn : Exp → Env → State → Outcome State Value}
    (heval : ∀ e env m, Level m.indent (evalIn e env m)) (bindings : List (String × Exp))
    (env : Env) (m : State) : Level m.indent (bindEach evalIn bindings env m) := by
  induction bindings generalizing env m with
  | nil => exact rfl
  | cons b bs ih =>
    refine (heval b.2 env m).andThen fun v s hs => ?_
    rw [← hs]
    exact ih _ (State.extend s env _).2

theorem indent_assignAll (env : Env) (pairs : List (String × Value)) (m : State) :
    (assignAll env pairs m).indent = m.indent := by
  unfold assignAll
  induction pairs generalizing m with
  | nil => rfl
  | cons p ps ih => exact ih _

theorem indent_setTraceCount (env : Env) (n : Number) (m : State) :
    (State.setTraceCount env n m).indent = m.indent := by
  unfold State.setTraceCount
  split <;> rfl

/-- An evaluation leaves the indentation as it found it. -/
theorem level_eval (l : Limits) (left : Nat) (e : Exp) (env : Env) (m : State) :
    Level m.indent (eval l left e env m) := by
  induction left generalizing e env m with
  | zero => exact rfl
  | succ left ih =>
    cases e with
    | literal d => exact rfl
    | var x =>
      simp only [eval]
      split <;> exact rfl
    | set x e =>
      refine (ih e env m).andThen fun v s hs => ?_
      split <;> exact hs
    | cond test yes no =>
      refine (ih test env m).andThen fun v s hs => ?_
      rw [← hs]
      split
      · exact ih yes env s
      · exact ih no env s
    | loop test body => exact Level.evalWhile (ih test env) (ih body env) l.turns m
    | block parts => exact Level.evalLast (fun e s => ih e env s) _ parts m
    | apply callee args =>
      refine (ih callee env m).andThen fun f s hs => ?_
      rw [← hs]
      refine (Level.evalEach (fun e s => ih e env s) args s).andThen fun vs t ht => ?_
      rw [← ht]
      exact Trace.level_around (indent_setTraceCount env)
        (level_applyValue ih (.apply callee args) callee f vs) t
    | lambda label formals body => exact rfl
    | bind kind bindings body =>
      cases kind with
      | plain =>
        refine (Level.evalEach (fun b s => ih b.2 env s) bindings m).andThen fun vs s hs => ?_
        rw [← hs]
        exact ih body _ (State.extend s env _).2
      | sequential =>
        refine (level_bindEach ih bindings env m).andThen fun inner s hs => ?_
        rw [← hs]
        exact ih body inner s
      | recursive =>
        simp only [eval]
        split
        · exact rfl
        · refine (Level.evalEach (fun b s => ih b.2 _ s) bindings (m.extend env _).2).andThen
            fun vs s hs => ?_
          rw [← hs, ← indent_assignAll]
          exact ih body _ _

end Functional

/-! ### The procedural language -/

namespace Procedural

theorem level_inScopes {n : Nat} {run : State → Outcome State α}
    (hrun : ∀ s, Level s.indent (run s)) (m : State) (scopes : Scopes) (h : m.indent = n) :
    Level n (m.inScopes scopes run) := by
  subst h
  unfold State.inScopes
  have hbody := hrun { m with memory := { m.memory with scopes := scopes } }
  revert hbody
  cases run { m with memory := { m.memory with scopes := scopes } } <;> exact id

theorem level_applyFunction {body : Exp → State → Outcome State Number}
    (hbody : ∀ e m, Level m.indent (body e m)) (call : Exp) (f : Function) (args : List Number)
    (m : State) : Level m.indent (applyFunction body call f args m) := by
  cases f with
  | procedure p =>
    simp only [applyFunction]
    split
    · exact level_inScopes (hbody p.body) m _ rfl
    · exact rfl
  | primitive p =>
    refine .of_state ?_
    rw [applyFunction, applyPrimitive, state_mapError, state_mapState]
    rfl

/-- An evaluation leaves the indentation as it found it. -/
theorem level_eval (l : Limits) (left : Nat) (e : Exp) (m : State) :
    Level m.indent (eval l left e m) := by
  induction left generalizing e m with
  | zero => exact rfl
  | succ left ih =>
    cases e with
    | literal n => exact rfl
    | var x =>
      simp only [eval]
      split <;> exact rfl
    | set x e =>
      refine (ih e m).andThen fun n s hs => ?_
      split <;> exact hs
    | cond test yes no =>
      refine (ih test m).andThen fun n s hs => ?_
      rw [← hs]
      split
      · exact ih yes s
      · exact ih no s
    | loop test body => exact Level.evalWhile (ih test) (ih body) l.turns m
    | block parts => exact Level.evalLast ih _ parts m
    | call function args =>
      simp only [eval]
      split
      · exact rfl
      · next f hf =>
        refine (Level.evalEach ih args m).andThen fun ns s hs => ?_
        rw [← hs]
        refine Trace.level_around ?_ (level_applyFunction ih (.call function args) f ns) s
        exact fun _ _ => rfl

end Procedural

end Primer
