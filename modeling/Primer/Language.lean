/-
Primer/Language.lean

What a session needs to know of a language, and the two languages as instances
of it.
-/
import Primer.Functional.Interpreter
import Primer.Procedural.Interpreter
import Primer.Text.Blank
import Primer.Text.Quoted

namespace Primer

structure Language where
  /-- what the interpreter keeps between forms -/
  Memory : Type
  Exp : Type
  /-- what a function definition holds -/
  Function : Type
  Value : Type
  /-- the name under which the language is announced -/
  name : String
  recognise : Datum → Except SyntaxError (Form Exp Function)
  define : Limits → Echo → Definition Exp Function → Machine Memory →
    Outcome (Machine Memory) Unit
  /-- evaluate an expression at top level -/
  eval : Limits → Exp → Machine Memory → Outcome (Machine Memory) Value
  expText : Exp → String
  valueText : Value → String
  equal : Value → Value → Bool
  isTrue : Value → Bool
  initial : Memory
  /-- the lines that list what is defined at top level -/
  listing : Memory → List String
  /-- a description of the interpreter -/
  describe : Limits → Memory → String

/-! ### Listings -/

/-- A line `  NAME = VALUE`. -/
def bindingLine (name value : String) : String := "  " ++ name ++ " = " ++ value

/-- A name filled up with spaces to ten characters. -/
def padName (name : String) : String := name.pushn ' ' (10 - name.length)

/-- Names in rows of six columns. -/
def nameRows : Nat → List String → List String
  | 0, _ => []
  | _, [] => []
  | rows + 1, names =>
      ("  " ++ Text.trimEnd (" ".intercalate ((names.take 6).map padName))) ::
        nameRows rows (names.drop 6)

namespace Functional

/-- The listing of the functional language: primitives in columns, then all
else with its value. -/
def listing (memory : Memory) : List String :=
  let all := memory.store.visible .globals
  let (primitives, others) := all.partition fun (_, v) => v matches .primitive _
  let names := primitives.map (·.1)
  let head := "Primitives (" ++ toString names.length ++ "):"
  let tail :=
    if others.isEmpty then []
    else ("User-defined (" ++ toString others.length ++ "):") ::
      others.map fun (x, v) => bindingLine x v.text
  head :: nameRows names.length names ++ tail

/-- The names of a frame, and whether there are frames around it. -/
def describeEnv (store : Store) (env : Env) : String :=
  let names := (store.frame env.inner).sorted.map fun (x, _) => Text.quoted x
  let around := if env.outer.isEmpty then "" else " -> .."
  "Env([" ++ ", ".intercalate names ++ "]" ++ around ++ ")"

def describeInterpreter (limits : Limits) (memory : Memory) : String :=
  "Interpreter \x7b globals: " ++ describeEnv memory.store .globals ++ ", max_depth: " ++
    toString limits.depth ++ ", .. \x7d"

end Functional

namespace Procedural

/-- The listing of the procedural language: global variables with their values,
then the names of the functions. -/
def listing (memory : Memory) : List String :=
  let globals := memory.globals.sorted
  let names := (Bindings.sorted (memory.functions.filter fun (_, f) =>
    f matches .procedure _)).map (·.1)
  let head :=
    if globals.isEmpty then ["No global variables."]
    else ("Globals (" ++ toString globals.length ++ "):") ::
      globals.map fun (x, n) => bindingLine x n.text
  let tail := if names.isEmpty then [] else ["Functions: " ++ " ".intercalate names]
  head ++ tail

def describeInterpreter (limits : Limits) (memory : Memory) : String :=
  "Interpreter \x7b globals: " ++ toString memory.globals.length ++ ", functions: " ++
    toString memory.functions.length ++ ", max_depth: " ++ toString limits.depth ++ " \x7d"

end Procedural

/-! ### The two languages -/

namespace Language

/-- The functional language. -/
def functional : Language where
  Memory := Functional.Memory
  Exp := Functional.Exp
  Function := Functional.Lambda
  Value := Functional.Value
  name := "uscheme"
  recognise := Functional.recognise
  define := fun limits echo d m => (Functional.define limits echo d m).map fun _ => ()
  eval := Functional.evalGlobal
  expText := Functional.Exp.text
  valueText := Functional.Value.text
  equal := Functional.Value.equal
  isTrue := Functional.Value.isTrue
  initial := Functional.Memory.initial
  listing := Functional.listing
  describe := Functional.describeInterpreter

/-- The procedural language. -/
def procedural : Language where
  Memory := Procedural.Memory
  Exp := Procedural.Exp
  Function := Procedural.Procedure
  Value := Number
  name := "impcore"
  recognise := Procedural.recognise
  define := Procedural.define
  eval := Procedural.evalGlobal
  expText := Procedural.Exp.text
  valueText := Number.text
  equal := fun a b => decide (a = b)
  isTrue := Procedural.isTrue
  initial := Procedural.Memory.initial
  listing := Procedural.listing
  describe := Procedural.describeInterpreter

end Language

end Primer
