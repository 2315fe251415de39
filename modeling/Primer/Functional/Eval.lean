/-
Primer/Functional/Eval.lean

Evaluation of the functional language.

`eval` recurses on the levels of depth that are left, not on the expression: a
call evaluates a body that is no part of the expression at hand.  Each
expression directly inside another one, and each function body, is one level
deeper; at no levels left evaluation ends in the error `tooDeep`.  Only a loop
can go on without getting deeper, so only loops need the bound on their turns.

An error raised anywhere ends the whole evaluation and leaves the state as it
was when the error arose.

No frame is let go of here.  `Primer.Functional.Collector` has the evaluation in
which every new frame may set off a collection, and `Primer.Proofs.Functional.Collector`
shows that it does the same as this one.
-/
import Primer.Functional.Primitive
import Primer.Functional.Store
import Primer.Outcome
import Primer.Trace

namespace Primer.Functional

/-- What the functional language keeps: the frames, and the first label that no
lambda expression has yet. -/
structure Memory where
  store : Store
  nextLabel : Nat

/-- The state of an interpreter of the functional language. -/
abbrev State := Machine Memory

/-- The environment of the names defined at top level. -/
def Env.globals : Env := ⟨0, []⟩

namespace State

/-- Change the store. -/
@[inline] def mapStore (m : State) (f : Store → Store) : State :=
  { m with memory := { m.memory with store := f m.memory.store } }

/-- Make a frame inside an environment.  Nothing is collected; for that see
`Collecting.extend`. -/
@[inline] def extend (m : State) (env : Env) (pairs : List (String × Value)) : Env × State :=
  (⟨m.memory.store.frames.size, env.frames⟩, m.mapStore fun s => (s.extend env pairs).2)

/-- The trace count that an environment shows, if it is a number. -/
def traceCount? (m : State) (env : Env) : Option Number :=
  match m.memory.store.get? env Trace.countName with
  | some (.number n) => some n
  | _ => none

/-- Overwrite the trace count that an environment shows. -/
def setTraceCount (env : Env) (n : Number) (m : State) : State :=
  match m.memory.store.holder? env Trace.countName with
  | some id => m.mapStore fun s => s.update id Trace.countName (.number n)
  | none => m

end State

/-- Apply a primitive to arguments, in a call whose text is `call`. -/
def applyPrimitive (p : Primitive) (args : List Value) (call : Exp) (m : State) :
    Outcome State Value :=
  ((p.run args m.console.out).mapState m.withOut).mapError fun e => e.inCall call.text

/-- Apply a function value.  `body` evaluates the body of a closure. -/
@[inline] def applyValue (body : Exp → Env → State → Outcome State Value) (call callee : Exp)
    (f : Value) (args : List Value) (m : State) : Outcome State Value :=
  match f with
  | .closure lambda env =>
      if lambda.formals.length = args.length then
        let (env, m) := m.extend env (lambda.formals.zip args)
        body lambda.body env m
      else .fault (.arity lambda.formals.length args.length (some call.text)) m
  | .primitive p => applyPrimitive p args call m
  | v => .fault (.notFunction callee.text v.text call.text) m

/-- The first binding whose initial value is not a lambda expression. -/
def nonLambda? (bindings : List (String × Exp)) : Option Exp :=
  (bindings.find? fun (_, e) => !e.isLambda).map (·.2)

/-- Give each name its value in the innermost frame that has it; a name that no
frame has is passed over. -/
def assignAll (env : Env) (pairs : List (String × Value)) (m : State) : State :=
  pairs.foldl (fun m (x, v) => m.mapStore fun s => (s.assign? env x v).getD s) m

/-- The frames of sequential bindings, one for each. -/
def bindEach (evalIn : Exp → Env → State → Outcome State Value) :
    List (String × Exp) → Env → State → Outcome State Env
  | [], env, m => .value env m
  | (x, e) :: bs, env, m =>
      (evalIn e env m).andThen fun v m =>
        let (env, m) := m.extend env [(x, v)]
        bindEach evalIn bs env m

/-- Evaluate an expression in an environment, with so many levels left. -/
def eval (limits : Limits) : Nat → Exp → Env → State → Outcome State Value
  | 0, _, _, m => .fault (.tooDeep limits.depth) m
  | left + 1, exp, env, m =>
      match exp with
      | .literal d => .value (.ofDatum d) m
      | .var x =>
          match m.memory.store.get? env x with
          | some v => .value v m
          | none => .fault (.unbound x) m
      | .set x e =>
          (eval limits left e env m).andThen fun v m =>
            match m.memory.store.holder? env x with
            | some id => .value v (m.mapStore fun s => s.update id x v)
            | none => .fault (.unboundTarget x exp.text) m
      | .cond test yes no =>
          (eval limits left test env m).andThen fun v m =>
            if v.isTrue then eval limits left yes env m else eval limits left no env m
      | .loop test body =>
          evalWhile Value.isTrue (.bool false) (eval limits left test env)
            (eval limits left body env) limits.turns m
      | .block parts =>
          evalLast (fun e m => eval limits left e env m) (.bool false) parts m
      | .apply callee args =>
          (eval limits left callee env m).andThen fun f m =>
            (evalEach (fun e m => eval limits left e env m) args m).andThen fun vs m =>
              Trace.around (m.traceCount? env) (State.setTraceCount env)
                (fun _ => Trace.callText callee.text (vs.map Value.text)) Value.text
                (applyValue (eval limits left) exp callee f vs) m
      | .lambda label formals body => .value (.closure ⟨label, formals, body⟩ env) m
      | .bind .plain bindings body =>
          (evalEach (fun b m => eval limits left b.2 env m) bindings m).andThen fun vs m =>
            let (inner, m) := m.extend env ((bindings.map (·.1)).zip vs)
            eval limits left body inner m
      | .bind .sequential bindings body =>
          (bindEach (eval limits left) bindings env m).andThen fun inner m =>
            eval limits left body inner m
      | .bind .recursive bindings body =>
          match nonLambda? bindings with
          | some e => .fault (.nonLambdaBinding e.text) m
          | none =>
              let (inner, m) := m.extend env (bindings.map fun b => (b.1, .unspecified))
              (evalEach (fun b m => eval limits left b.2 inner m) bindings m).andThen fun vs m =>
                let m := assignAll inner ((bindings.map (·.1)).zip vs) m
                eval limits left body inner m

end Primer.Functional
