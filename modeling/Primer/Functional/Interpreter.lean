/-
Primer/Functional/Interpreter.lean

The interpreter of the functional language: top-level definitions and
expressions.  A form is labelled when it is loaded, with labels that no form
before it has, so that each of its lambda expressions is known apart.

A definition binds its name before it prints what it defines.  If the printing
fails, that is an error, but the binding stays.
-/
import Primer.Functional.Eval
import Primer.Functional.Grammar

namespace Primer.Functional

/-- The name of the value of the last top-level expression. -/
def itName : String := "it"

/-- The global frame of a new interpreter: each primitive under its name. -/
def initialFrame : Frame := Primitive.all.map fun p => (p.name, .primitive p)

/-- A memory that holds the primitives and nothing else. -/
def Memory.initial : Memory := ⟨(Store.empty.root initialFrame).2, 0⟩

namespace State

/-- A new interpreter. -/
def initial (console : Console) : State := ⟨.initial, console, 0⟩

/-- Set the first free label. -/
@[inline] def withLabels (m : State) (next : Nat) : State :=
  { m with memory := { m.memory with nextLabel := next } }

/-- Load an expression: label it with labels that are free. -/
def load (m : State) (e : Exp) : Exp × State :=
  let (e, next) := e.labelled m.memory.nextLabel
  (e, m.withLabels next)

/-- Load a function. -/
def loadLambda (m : State) (f : Lambda) : Lambda × State :=
  let (f, next) := f.labelled m.memory.nextLabel
  (f, m.withLabels next)

/-- Bind a name at top level. -/
def defineGlobal (m : State) (name : String) (v : Value) : State :=
  m.mapStore fun s => s.define .globals name v

/-- The value of a name at top level. -/
def global? (m : State) (name : String) : Option Value := m.memory.store.get? .globals name

/-- Every name that is bound at top level, in order. -/
def globals (m : State) : List (String × Value) := m.memory.store.visible .globals

end State

/-- Evaluate an expression in an environment, from the outermost level on. -/
def evalIn (limits : Limits) (e : Exp) (env : Env) (m : State) : Outcome State Value :=
  let (e, m) := m.load e
  eval limits limits.depth e env m

/-- Evaluate an expression at top level. -/
def evalGlobal (limits : Limits) (e : Exp) (m : State) : Outcome State Value :=
  evalIn limits e .globals m

/-- What a definition prints: the name of a function, the text of any other
value. -/
def echoText (name : String) (v : Value) : String := if v.isFunction then name else v.text

/-- Bind a name at top level to a value, then print a line. -/
def bindAndEcho (echo : Echo) (name : String) (v : Value) (line : Unit → String) (m : State) :
    Outcome State Value :=
  ((m.defineGlobal name v).echo echo line).map fun _ => v

/-- Carry out a definition; the value is the one that was bound. -/
def define (limits : Limits) (echo : Echo) (d : Definition Exp Lambda) (m : State) :
    Outcome State Value :=
  match d with
  | .val name e =>
      (evalGlobal limits e m).andThen fun v m =>
        bindAndEcho echo name v (fun _ => echoText name v) m
  | .function name f =>
      match repeated? f.formals with
      | some formal => .fault (.repeatedFormal formal name) m
      | none =>
          let (f, m) := m.loadLambda f
          bindAndEcho echo name (.closure f .globals) (fun _ => name) m
  | .exp e =>
      (evalGlobal limits e m).andThen fun v m => bindAndEcho echo itName v (fun _ => v.text) m

end Primer.Functional
