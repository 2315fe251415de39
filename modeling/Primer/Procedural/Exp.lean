/-
Primer/Procedural/Exp.lean

Expressions of the procedural language and their printed form.  Its values are
numbers, and a call names the function that it calls.
-/
import Primer.Number

namespace Primer.Procedural

inductive Exp where
  | literal (n : Number)
  | var (name : String)
  | set (name : String) (value : Exp)
  | cond (test yes no : Exp)
  | loop (test body : Exp)
  | block (parts : List Exp)
  | call (function : String) (args : List Exp)

/-- A function: its formal parameters, its local variables and its body. -/
structure Procedure where
  formals : List String
  locals : List String
  body : Exp

namespace Exp

mutual

/-- The printed form. -/
def text : Exp → String
  | literal n => n.text
  | var name => name
  | set name value => "(set " ++ name ++ " " ++ text value ++ ")"
  | cond test yes no => "(if " ++ text test ++ " " ++ text yes ++ " " ++ text no ++ ")"
  | loop test body => "(while " ++ text test ++ " " ++ text body ++ ")"
  | block parts => "(begin" ++ textEach parts ++ ")"
  | call function args => "(" ++ function ++ textEach args ++ ")"

/-- The expressions, each with a space before it. -/
def textEach : List Exp → String
  | [] => ""
  | e :: es => " " ++ text e ++ textEach es

end

end Exp

end Primer.Procedural
