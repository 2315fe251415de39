/-
Primer/Error.lean

Everything that can go wrong with a form, in both languages.  A constructor is
a cause; `Error.message` is the one place where the wording is chosen.

An error keeps the text of the expression it is about.  Primitives do not see
the call that they serve, so their errors start without one and `Error.inCall`
fills it in where the call is known.
-/
import Primer.SyntaxError

namespace Primer

inductive Error where
  | malformed (e : SyntaxError)
  | unbound (name : String)
  | unboundTarget (name expression : String)
  /-- a name in none of the three scopes of the procedural language -/
  | unknownVariable (name : String)
  | unknownTarget (name expression : String)
  | undefinedFunction (name expression : String)
  | arity (expected got : Nat) (call : Option String)
  | wrongType (message : String)
  | divisionByZero (call : Option String)
  | overflow (call : Option String)
  | notFunction (callee value call : String)
  | repeatedFormal (formal function : String)
  /-- a repeated formal in the procedural language, which words it otherwise -/
  | repeatedParameter (formal function : String)
  | nonLambdaBinding (expression : String)
  | tooDeep (limit : Nat)
  | failure (message : String)
  /-- a channel did not take what was written -/
  | channel (reason : String)
deriving DecidableEq

namespace Error

/-- ` in CALL` if the call is known. -/
def callSuffix : Option String → String
  | some call => " in " ++ call
  | none => ""

/-- How many arguments a function wants and got. -/
def arityText (expected got : Nat) : String :=
  let noun := if expected = 1 then " argument" else " arguments"
  "expected " ++ toString expected ++ noun ++ " but found " ++ toString got

/-- The message for the reader of the diagnostics. -/
def message : Error → String
  | malformed e => e.message
  | unbound name => "name " ++ name ++ " not found"
  | unboundTarget name expression => "set unbound variable " ++ name ++ " in " ++ expression
  | unknownVariable name => "unbound variable " ++ name
  | unknownTarget name expression =>
      "tried to set unbound variable " ++ name ++ " in " ++ expression
  | undefinedFunction name expression =>
      "call to undefined function " ++ name ++ " in " ++ expression
  | arity expected got (some call) => "in " ++ call ++ ", " ++ arityText expected got
  | arity expected got none => arityText expected got
  | wrongType message => message
  | divisionByZero call => "division by zero" ++ callSuffix call
  | overflow call => "arithmetic overflow" ++ callSuffix call
  | notFunction callee value call =>
      callee ++ " evaluates to non-function " ++ value ++ " in " ++ call
  | repeatedFormal formal function =>
      "formal parameter " ++ formal ++ " appears twice in definition of function " ++ function
  | repeatedParameter formal function =>
      "Formal parameter " ++ formal ++ " appears twice in definition of function " ++ function
  | nonLambdaBinding expression => "letrec tries to bind non-lambda expression " ++ expression
  | tooDeep limit =>
      "recursion too deep (evaluation depth limit " ++ toString limit ++ " reached)"
  | failure message => message
  | channel reason => "I/O error: " ++ reason

/-- The error with its call, where one is wanted and none is known yet. -/
def inCall (call : String) : Error → Error
  | arity expected got none => arity expected got (some call)
  | divisionByZero none => divisionByZero (some call)
  | overflow none => overflow (some call)
  | e => e

end Error

end Primer
