/-
Primer/Functional/Exp.lean

Expressions of the functional language and their printed form.

A lambda expression carries a label.  Labels tell apart lambda expressions that
stand in different places of a program, even if they read the same: they are
given when a form is loaded (`Exp.labelled`) and never printed.
-/
import Primer.Datum

namespace Primer.Functional

/-- The three binding forms. -/
inductive LetKind where
  /-- initial values see the surrounding names only -/
  | plain
  /-- each initial value sees the bindings before it -/
  | sequential
  /-- initial values are lambda expressions that see all the bindings -/
  | recursive
deriving DecidableEq

def LetKind.keyword : LetKind → String
  | plain => "let"
  | sequential => "let*"
  | recursive => "letrec"

inductive Exp where
  /-- a datum that stands for itself -/
  | literal (d : Datum)
  | var (name : String)
  | set (name : String) (value : Exp)
  | cond (test yes no : Exp)
  | loop (test body : Exp)
  | block (parts : List Exp)
  | apply (callee : Exp) (args : List Exp)
  | lambda (label : Nat) (formals : List String) (body : Exp)
  | bind (kind : LetKind) (bindings : List (String × Exp)) (body : Exp)

/-- A function as it is written: its label, its formal parameters and body. -/
structure Lambda where
  label : Nat
  formals : List String
  body : Exp

namespace Exp

/-! ### Printed form -/

/-- Names in brackets, separated by single spaces. -/
def namesText (names : List String) : String := "(" ++ " ".intercalate names ++ ")"

/-- A literal as an expression: symbols and lists need a quote mark. -/
def literalText (d : Datum) : String :=
  match d with
  | .number _ => d.text
  | .bool _ => d.text
  | .symbol _ => "'" ++ d.text
  | .list _ => "'" ++ d.text

mutual

/-- The printed form. -/
def text : Exp → String
  | literal d => literalText d
  | var name => name
  | set name value => "(set " ++ name ++ " " ++ text value ++ ")"
  | cond test yes no => "(if " ++ text test ++ " " ++ text yes ++ " " ++ text no ++ ")"
  | loop test body => "(while " ++ text test ++ " " ++ text body ++ ")"
  | block parts => "(begin" ++ textEach parts ++ ")"
  | apply callee args => "(" ++ text callee ++ textEach args ++ ")"
  | lambda _ formals body => "(lambda " ++ namesText formals ++ " " ++ text body ++ ")"
  | bind kind bindings body =>
      "(" ++ kind.keyword ++ " (" ++ textBindings bindings ++ ") " ++ text body ++ ")"

/-- The expressions, each with a space before it. -/
def textEach : List Exp → String
  | [] => ""
  | e :: es => " " ++ text e ++ textEach es

/-- The bindings, separated by single spaces. -/
def textBindings : List (String × Exp) → String
  | [] => ""
  | [(x, e)] => "(" ++ x ++ " " ++ text e ++ ")"
  | (x, e) :: bs => "(" ++ x ++ " " ++ text e ++ ") " ++ textBindings bs

end

/-! ### Labels -/

mutual

/-- The expression with its lambda expressions labelled from `next` on, in the
order in which they begin, and the first label that is still free. -/
def labelled (next : Nat) : Exp → Exp × Nat
  | literal d => (literal d, next)
  | var name => (var name, next)
  | set name value =>
      let (value, next) := labelled next value
      (set name value, next)
  | cond test yes no =>
      let (test, next) := labelled next test
      let (yes, next) := labelled next yes
      let (no, next) := labelled next no
      (cond test yes no, next)
  | loop test body =>
      let (test, next) := labelled next test
      let (body, next) := labelled next body
      (loop test body, next)
  | block parts =>
      let (parts, next) := labelledEach next parts
      (block parts, next)
  | apply callee args =>
      let (callee, next) := labelled next callee
      let (args, next) := labelledEach next args
      (apply callee args, next)
  | lambda _ formals body =>
      let (body, after) := labelled (next + 1) body
      (lambda next formals body, after)
  | bind kind bindings body =>
      let (bindings, next) := labelledBindings next bindings
      let (body, next) := labelled next body
      (bind kind bindings body, next)

/-- The same for a list of expressions. -/
def labelledEach (next : Nat) : List Exp → List Exp × Nat
  | [] => ([], next)
  | e :: es =>
      let (e, next) := labelled next e
      let (es, next) := labelledEach next es
      (e :: es, next)

/-- The same for bindings. -/
def labelledBindings (next : Nat) : List (String × Exp) → List (String × Exp) × Nat
  | [] => ([], next)
  | (x, e) :: bs =>
      let (e, next) := labelled next e
      let (bs, next) := labelledBindings next bs
      ((x, e) :: bs, next)

end

/-- Whether an expression is a lambda expression. -/
def isLambda : Exp → Bool
  | lambda .. => true
  | _ => false

end Exp

namespace Lambda

/-- The lambda expression itself. -/
def toExp (f : Lambda) : Exp := .lambda f.label f.formals f.body

def text (f : Lambda) : String := f.toExp.text

/-- The function with labels from `next` on, its own first. -/
def labelled (next : Nat) (f : Lambda) : Lambda × Nat :=
  let (body, after) := f.body.labelled (next + 1)
  (⟨next, f.formals, body⟩, after)

end Lambda

end Primer.Functional
