/-
Primer/Functional/Collector.lean

Evaluation with a collector.

A frame is in use as long as something can get at it: the globals, or whoever
carries out an evaluation, by the environments that it is in the middle of and by
the values that it has at hand.  A closure kept in the frame that it captured does
not count by itself, so such a frame would be kept forever.  The collector has its
eye on all frames that are made.  When they have become as many as its threshold,
it unbinds all names of those that are out of use, and has its eye on the others
from then on.  The next threshold is twice their number, but not below a minimum.

What is held by those who carry out an evaluation is not in the store, so here an
evaluation is told: `held` are the frames that others hold, the environment of the
evaluation apart.  Each step adds what it holds itself to what it tells the steps
within it.  A collector may take frames to be held that are not, for lack of better
knowledge, or all of them; these are its `pins`, and nothing is said about them.

Otherwise the evaluation is that of `Primer.Functional.Eval`.
-/
import Primer.Functional.Interpreter

namespace Primer.Functional

/-- A collector and the frames that it has its eye on. -/
structure Collector where
  /-- the frames made since the last collection, after those that were left then -/
  tracked : List FrameId := []
  /-- so many tracked frames call for a collection -/
  threshold : Nat := 1024
  /-- the threshold does not fall below this -/
  minimum : Nat := 1024
  /-- what each of the collections to come takes to be held besides -/
  pins : Nat → List FrameId := fun _ => []

namespace Collector

/-- Have an eye on one more frame. -/
def track (g : Collector) (id : FrameId) : Collector := { g with tracked := g.tracked ++ [id] }

/-- Whether it is time for a collection. -/
def isDue (g : Collector) : Bool := g.threshold ≤ g.tracked.length

/-- After a collection that left some frames. -/
def next (g : Collector) (left : List FrameId) : Collector where
  tracked := left
  threshold := max g.minimum (2 * left.length)
  minimum := g.minimum
  pins n := g.pins (n + 1)

end Collector

namespace Store

/-- The frames that closures in a frame have captured. -/
def capturedIn (s : Store) (id : FrameId) : List FrameId :=
  (s.frame id).flatMap fun b => b.2.captured

/-- Follow the captured frames from `pending` on.  `rest` are the frames that have not been
come by; what is left of them in the end is the result. -/
def unreached (s : Store) : (rest pending : List FrameId) → List FrameId
  | rest, [] => rest
  | rest, id :: pending =>
      if id ∈ rest then unreached s (rest.erase id) (s.capturedIn id ++ pending)
      else unreached s rest pending
termination_by rest pending =>
  (rest.flatMap fun id => id :: s.capturedIn id).length + pending.length
decreasing_by
  -- what a frame has captured is pending from when the frame is come by
  · next hid =>
    have hperm := (List.perm_cons_erase hid).flatMap_right fun id => id :: s.capturedIn id
    have hlength := hperm.length_eq
    simp only [List.flatMap_cons, List.length_append, List.length_cons] at hlength ⊢
    omega
  · exact Nat.lt_succ_self _

/-- The frames that cannot be got at from some roots. -/
def garbage (s : Store) (roots : List FrameId) : List FrameId :=
  s.unreached (List.range s.frames.size) roots

end Store

/-- A memory with a collector. -/
structure Heap where
  memory : Memory
  collector : Collector

/-- The state of an interpreter with a collector. -/
abbrev Collecting := Machine Heap

namespace Collecting

/-- The state without the collector. -/
def plain (c : Collecting) : State := ⟨c.memory.memory, c.console, c.indent⟩

/-- Another state, with the same collector. -/
def withPlain (c : Collecting) (m : State) : Collecting :=
  ⟨⟨m.memory, c.memory.collector⟩, m.console, m.indent⟩

def store (c : Collecting) : Store := c.memory.memory.store

/-- A new interpreter with a collector. -/
def initial (console : Console) (collector : Collector) : Collecting :=
  ⟨⟨.initial, collector⟩, console, 0⟩

/-- Do something in which no frame is made. -/
def directly {α : Type} (c : Collecting) (run : State → Outcome State α) : Outcome Collecting α :=
  (run c.plain).mapState c.withPlain

/-- Unbind all names of the tracked frames that are out of use. -/
def collect (held : List FrameId) (c : Collecting) : Collecting :=
  let g := c.memory.collector
  let garbage := c.store.garbage (held ++ Env.globals.frames ++ g.pins 0)
  let dead := g.tracked.filter (· ∈ garbage)
  let left := g.tracked.filter (· ∉ garbage)
  ⟨⟨⟨c.store.clearAll dead, c.memory.memory.nextLabel⟩, g.next left⟩, c.console, c.indent⟩

/-- Make a frame inside an environment, and collect if it is time. -/
def extend (held : List FrameId) (env : Env) (pairs : List (String × Value)) (c : Collecting) :
    Env × Collecting :=
  let (inner, m) := State.extend c.plain env pairs
  let c : Collecting := ⟨⟨m.memory, c.memory.collector.track inner.inner⟩, m.console, m.indent⟩
  (inner, if c.memory.collector.isDue then c.collect (inner.frames ++ held) else c)

/-- Overwrite the trace count that an environment shows. -/
def setTraceCount (env : Env) (n : Number) (c : Collecting) : Collecting :=
  c.withPlain (State.setTraceCount env n c.plain)

end Collecting

/-- Evaluation of an expression in an environment, by someone who is told what is held. -/
abbrev Evaluator := List FrameId → Exp → Env → Collecting → Outcome Collecting Value

namespace Collecting

/-- Do something for each of a list and collect the values, which are held until all is
done. -/
def evalEach {α : Type} (f : List FrameId → α → Collecting → Outcome Collecting Value) :
    List FrameId → List α → Collecting → Outcome Collecting (List Value)
  | _, [], c => .value [] c
  | held, a :: as, c =>
      (f held a c).andThen fun v c =>
        (evalEach f (v.captured ++ held) as c).andThen fun vs c => .value (v :: vs) c

/-- Apply a function value. -/
def applyValue (body : Evaluator) (held : List FrameId) (call callee : Exp) (f : Value)
    (args : List Value) (c : Collecting) : Outcome Collecting Value :=
  match f with
  | .closure lambda env =>
      if lambda.formals.length = args.length then
        let (inner, c) := c.extend held env (lambda.formals.zip args)
        body held lambda.body inner c
      else .fault (.arity lambda.formals.length args.length (some call.text)) c
  | .primitive p => c.directly (applyPrimitive p args call)
  | v => .fault (.notFunction callee.text v.text call.text) c

/-- The frames of sequential bindings, one for each. -/
def bindEach (sub : Evaluator) :
    List FrameId → List (String × Exp) → Env → Collecting → Outcome Collecting Env
  | _, [], env, c => .value env c
  | held, (x, e) :: bs, env, c =>
      (sub held e env c).andThen fun v c =>
        let (inner, c) := c.extend held env [(x, v)]
        bindEach sub (env.frames ++ held) bs inner c

/-- Evaluate an expression, whose parts and bodies `sub` evaluates. -/
def evalForm (limits : Limits) (sub : Evaluator) (held : List FrameId) (exp : Exp) (env : Env)
    (c : Collecting) : Outcome Collecting Value :=
  match exp with
  | .literal d => .value (.ofDatum d) c
  | .var x =>
      match c.store.get? env x with
      | some v => .value v c
      | none => .fault (.unbound x) c
  | .set x e =>
      (sub held e env c).andThen fun v c =>
        match c.store.holder? env x with
        | some id => .value v (c.withPlain (c.plain.mapStore fun s => s.update id x v))
        | none => .fault (.unboundTarget x exp.text) c
  | .cond test yes no =>
      (sub held test env c).andThen fun v c =>
        if v.isTrue then sub held yes env c else sub held no env c
  | .loop test body =>
      evalWhile Value.isTrue (.bool false) (sub held test env) (sub held body env) limits.turns c
  | .block parts => evalLast (fun e c => sub held e env c) (.bool false) parts c
  | .apply callee args =>
      (sub held callee env c).andThen fun f c =>
        (evalEach (fun held e c => sub held e env c) (f.captured ++ held) args c).andThen
          fun vs c =>
            let held := env.frames ++ (vs.flatMap Value.captured ++ (f.captured ++ held))
            Trace.around (State.traceCount? c.plain env) (setTraceCount env)
              (fun _ => Trace.callText callee.text (vs.map Value.text)) Value.text
              (applyValue sub held exp callee f vs) c
  | .lambda label formals body => .value (.closure ⟨label, formals, body⟩ env) c
  | .bind .plain bindings body =>
      (evalEach (fun held b c => sub held b.2 env c) held bindings c).andThen fun vs c =>
        let (inner, c) := c.extend held env ((bindings.map (·.1)).zip vs)
        sub (env.frames ++ held) body inner c
  | .bind .sequential bindings body =>
      (bindEach sub held bindings env c).andThen fun inner c =>
        sub (env.frames ++ held) body inner c
  | .bind .recursive bindings body =>
      match nonLambda? bindings with
      | some e => .fault (.nonLambdaBinding e.text) c
      | none =>
          let (inner, c) := c.extend held env (bindings.map fun b => (b.1, .unspecified))
          let held := env.frames ++ held
          (evalEach (fun held b c => sub held b.2 inner c) held bindings c).andThen fun vs c =>
            let m := assignAll inner ((bindings.map (·.1)).zip vs) c.plain
            sub held body inner (c.withPlain m)

/-- Evaluate an expression in an environment, with so many levels left. -/
def eval (limits : Limits) : Nat → Evaluator
  | 0, _, _, _, c => .fault (.tooDeep limits.depth) c
  | left + 1, held, exp, env, c => evalForm limits (eval limits left) held exp env c

/-- Evaluate an expression at top level. -/
def evalGlobal (limits : Limits) (held : List FrameId) (e : Exp) (c : Collecting) :
    Outcome Collecting Value :=
  let (e, m) := State.load c.plain e
  eval limits limits.depth held e .globals (c.withPlain m)

/-- Carry out a definition; the value is the one that was bound. -/
def define (limits : Limits) (echo : Echo) (held : List FrameId) (d : Definition Exp Lambda)
    (c : Collecting) : Outcome Collecting Value :=
  match d with
  | .val name e =>
      (evalGlobal limits held e c).andThen fun v c =>
        c.directly (bindAndEcho echo name v fun _ => echoText name v)
  | .function .. => c.directly (Functional.define limits echo d)
  | .exp e =>
      (evalGlobal limits held e c).andThen fun v c =>
        c.directly (bindAndEcho echo itName v fun _ => v.text)

end Collecting

end Primer.Functional
