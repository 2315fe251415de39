/-
Primer/Procedural/Eval.lean

Evaluation of the procedural language.  A variable is looked up in the local
variables of the call in progress, then in its formal parameters, then in the
globals; these scopes are never chained.  Functions have a table of their own.

As in the functional language, `eval` recurses on the levels of depth that are
left.  A call runs its body in scopes of its own, and whatever the body does
the caller has its own scopes back afterwards.
-/
import Primer.Bindings
import Primer.Procedural.Exp
import Primer.Procedural.Primitive
import Primer.Trace

namespace Primer.Procedural

/-- An entry of the function table. -/
inductive Function where
  | procedure (p : Procedure)
  | primitive (p : Primitive)

/-- The variables of a call in progress. -/
structure Scopes where
  locals : Bindings Number
  formals : Bindings Number

/-- Outside of any call. -/
def Scopes.none : Scopes := ⟨[], []⟩

/-- The scopes with which a call begins: its arguments, and zero in each local
variable. -/
def Scopes.ofCall (p : Procedure) (args : List Number) : Scopes :=
  ⟨.ofList (p.locals.map fun x => (x, Number.zero)), .ofList (p.formals.zip args)⟩

/-- What the procedural language keeps. -/
structure Memory where
  scopes : Scopes
  globals : Bindings Number
  functions : Bindings Function

namespace Memory

/-- The value of a variable. -/
def get? (m : Memory) (name : String) : Option Number :=
  match m.scopes.locals.get? name with
  | some n => some n
  | none =>
      match m.scopes.formals.get? name with
      | some n => some n
      | none => m.globals.get? name

/-- Overwrite a variable where it is found; `none` if it is found nowhere. -/
def assign? (m : Memory) (name : String) (n : Number) : Option Memory :=
  if m.scopes.locals.has name then
    some { m with scopes := { m.scopes with locals := m.scopes.locals.set name n } }
  else if m.scopes.formals.has name then
    some { m with scopes := { m.scopes with formals := m.scopes.formals.set name n } }
  else if m.globals.has name then some { m with globals := m.globals.set name n }
  else none

/-- Overwrite the trace count, where one is found. -/
def setTraceCount (n : Number) (m : Memory) : Memory :=
  (m.assign? Trace.countName n).getD m

end Memory

/-- The state of an interpreter of the procedural language. -/
abbrev State := Machine Memory

namespace State

/-- Run something in other scopes and then come back to those of now. -/
@[inline] def inScopes {α : Type} (m : State) (scopes : Scopes)
    (run : State → Outcome State α) : Outcome State α :=
  let caller := m.memory.scopes
  (run { m with memory := { m.memory with scopes := scopes } }).mapState fun m =>
    { m with memory := { m.memory with scopes := caller } }

end State

/-- Only zero counts as false. -/
def isTrue (n : Number) : Bool := n.val != 0

/-- Apply a primitive to arguments, in a call whose text is `call`. -/
def applyPrimitive (p : Primitive) (args : List Number) (call : Exp) (m : State) :
    Outcome State Number :=
  ((p.run args m.console.out).mapState m.withOut).mapError fun e => e.inCall call.text

/-- Apply an entry of the function table.  `body` evaluates the body of a
function. -/
@[inline] def applyFunction (body : Exp → State → Outcome State Number) (call : Exp)
    (f : Function) (args : List Number) (m : State) : Outcome State Number :=
  match f with
  | .procedure p =>
      if p.formals.length = args.length then
        m.inScopes (Scopes.ofCall p args) fun m => body p.body m
      else .fault (.arity p.formals.length args.length (some call.text)) m
  | .primitive p => applyPrimitive p args call m

/-- Evaluate an expression in the scopes of now, with so many levels left. -/
def eval (limits : Limits) : Nat → Exp → State → Outcome State Number
  | 0, _, m => .fault (.tooDeep limits.depth) m
  | left + 1, exp, m =>
      match exp with
      | .literal n => .value n m
      | .var x =>
          match m.memory.get? x with
          | some n => .value n m
          | none => .fault (.unknownVariable x) m
      | .set x e =>
          (eval limits left e m).andThen fun n m =>
            match m.memory.assign? x n with
            | some memory => .value n { m with memory := memory }
            | none => .fault (.unknownTarget x exp.text) m
      | .cond test yes no =>
          (eval limits left test m).andThen fun n m =>
            if isTrue n then eval limits left yes m else eval limits left no m
      | .loop test body =>
          evalWhile isTrue Number.zero (eval limits left test) (eval limits left body)
            limits.turns m
      | .block parts => evalLast (eval limits left) Number.zero parts m
      | .call function args =>
          match m.memory.functions.get? function with
          | none => .fault (.undefinedFunction function exp.text) m
          | some f =>
              (evalEach (eval limits left) args m).andThen fun ns m =>
                Trace.around (m.memory.get? Trace.countName)
                  (fun n m => { m with memory := m.memory.setTraceCount n })
                  (fun _ => Trace.callText function (ns.map Number.text)) Number.text
                  (applyFunction (eval limits left) exp f ns) m

end Primer.Procedural
