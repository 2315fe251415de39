/-
Primer/Procedural/Interpreter.lean

The interpreter of the procedural language: top-level definitions and
expressions.  A definition takes effect before it prints what it defines; if
the printing fails, that is an error, but the effect stays.
-/
import Primer.Procedural.Eval
import Primer.Procedural.Grammar

namespace Primer.Procedural

/-- The name of the value of the last top-level expression. -/
def itName : String := "it"

/-- A memory that holds the primitives and nothing else. -/
def Memory.initial : Memory :=
  ⟨.none, [], Primitive.all.map fun p => (p.name, .primitive p)⟩

namespace State

/-- A new interpreter. -/
def initial (console : Console) : State := ⟨.initial, console, 0⟩

/-- Bind a global variable. -/
def defineGlobal (m : State) (name : String) (n : Number) : State :=
  { m with memory := { m.memory with globals := m.memory.globals.set name n } }

/-- Enter a function in the table. -/
def defineFunction (m : State) (name : String) (p : Procedure) : State :=
  { m with memory := { m.memory with functions := m.memory.functions.set name (.procedure p) } }

/-- The value of a global variable. -/
def global? (m : State) (name : String) : Option Number := m.memory.globals.get? name

/-- The global variables, in order. -/
def globals (m : State) : List (String × Number) := m.memory.globals.sorted

/-- The names of the functions that are not primitive, in order. -/
def procedures (m : State) : List String :=
  (Bindings.sorted (m.memory.functions.filter fun (_, f) => f matches .procedure _)).map (·.1)

end State

/-- Evaluate an expression at top level, outside of any call. -/
def evalGlobal (limits : Limits) (e : Exp) (m : State) : Outcome State Number :=
  m.inScopes .none (eval limits limits.depth e)

/-- Carry out a definition. -/
def define (limits : Limits) (echo : Echo) (d : Definition Exp Procedure) (m : State) :
    Outcome State Unit :=
  match d with
  | .val name e =>
      (evalGlobal limits e m).andThen fun n m =>
        (m.defineGlobal name n).echo echo fun _ => n.text
  | .function name p =>
      match repeated? p.formals with
      | some formal => .fault (.repeatedParameter formal name) m
      | none => (m.defineFunction name p).echo echo fun _ => name
  | .exp e =>
      (evalGlobal limits e m).andThen fun n m =>
        (m.defineGlobal itName n).echo echo fun _ => n.text

end Primer.Procedural
