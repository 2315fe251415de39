/-
Primer/Functional/Grammar.lean

Which data are expressions and definitions of the functional language.  The
number of parts of a form is checked first and then its parts from left to
right; that names are not repeated is checked once they are known to be names.

The labels of lambda expressions are all zero here; they are given when a form
is loaded.
-/
import Primer.Bindings
import Primer.Form
import Primer.Functional.Exp

namespace Primer.Functional

/-- The keywords of expressions. -/
inductive Keyword where
  | quote
  | set
  | cond
  | loop
  | block
  | lambda
  | bind (kind : LetKind)
deriving DecidableEq

namespace Keyword

def name : Keyword → String
  | quote => "quote"
  | set => "set"
  | cond => "if"
  | loop => "while"
  | block => "begin"
  | lambda => "lambda"
  | bind kind => kind.keyword

def ofName? : String → Option Keyword
  | "quote" => some quote
  | "set" => some set
  | "if" => some cond
  | "while" => some loop
  | "begin" => some block
  | "lambda" => some lambda
  | "let" => some (bind .plain)
  | "let*" => some (bind .sequential)
  | "letrec" => some (bind .recursive)
  | _ => none

/-- The parts that an expression of this keyword has. -/
def usage : Keyword → String
  | quote => "(quote datum)"
  | set => "(set x e)"
  | cond => "(if e e e)"
  | loop => "(while e e)"
  | block => "(begin e ...)"
  | lambda => "(lambda (x ...) e)"
  | bind kind => "(" ++ kind.keyword ++ " ((x e) ...) e)"

/-- The keyword that a datum is, if it is one. -/
def ofDatum? (d : Datum) : Option Keyword := d.symbol?.bind ofName?

end Keyword

/-- A datum that has to be a list of names. -/
def formalsOf (form d : Datum) : Except Malformed (List String) :=
  match d with
  | .list ds => namesOf form ds
  | _ => .error (.namesExpected form d)

/-- The name that a binding form must not repeat and does. -/
def repeatedBinding? (kind : LetKind) (bindings : List (String × Exp)) : Option String :=
  match kind with
  | .sequential => none
  | _ => repeated? (bindings.map (·.1))

/-- A lambda expression, whose formal parameters must not repeat a name. -/
def checkedLambda (form : Datum) (formals : List String) (body : Except Malformed Exp) :
    Except Malformed Exp :=
  match repeated? formals with
  | some x => .error (.repeatedFormal form x)
  | none => body.map fun body => .lambda 0 formals body

/-- A binding form, which must not repeat a name unless it is sequential. -/
def checkedBind (form : Datum) (kind : LetKind) (bindings : List (String × Exp))
    (body : Except Malformed Exp) : Except Malformed Exp :=
  match repeatedBinding? kind bindings with
  | some x => .error (.repeatedBinding form x kind.keyword)
  | none => body.map fun body => .bind kind bindings body

mutual

/-- Recognise an expression. -/
def Exp.ofDatum : Datum → Except Malformed Exp
  | .number n => .ok (.literal (.number n))
  | .bool b => .ok (.literal (.bool b))
  | .symbol name => .ok (.var name)
  | .list [] => .error .emptyList
  | .list (head :: parts) =>
      let form := Datum.list (head :: parts)
      match Keyword.ofDatum? head with
      | none => do
          let callee ← Exp.ofDatum head
          let args ← Exp.ofData parts
          return .apply callee args
      | some keyword =>
          match keyword, parts with
          | .quote, [d] => if d.mentions "." then .error .dotInQuotation else .ok (.literal d)
          | .set, [x, e] => do
              let x ← nameOf form x
              let e ← Exp.ofDatum e
              return .set x e
          | .cond, [test, yes, no] => do
              let test ← Exp.ofDatum test
              let yes ← Exp.ofDatum yes
              let no ← Exp.ofDatum no
              return .cond test yes no
          | .loop, [test, body] => do
              let test ← Exp.ofDatum test
              let body ← Exp.ofDatum body
              return .loop test body
          | .block, parts => do
              let parts ← Exp.ofData parts
              return .block parts
          | .lambda, [formals, body] => do
              let formals ← formalsOf form formals
              checkedLambda form formals (Exp.ofDatum body)
          | .bind kind, [.list bindings, body] => do
              let bindings ← Exp.ofBindings form bindings
              checkedBind form kind bindings (Exp.ofDatum body)
          | keyword, _ => .error (.usage form keyword.usage)

/-- Recognise a list of expressions. -/
def Exp.ofData : List Datum → Except Malformed (List Exp)
  | [] => .ok []
  | d :: ds => do
      let e ← Exp.ofDatum d
      let es ← Exp.ofData ds
      return e :: es

/-- Recognise the bindings of a form. -/
def Exp.ofBindings (form : Datum) : List Datum → Except Malformed (List (String × Exp))
  | [] => .ok []
  | .list [x, e] :: ds => do
      let x ← nameOf form x
      let e ← Exp.ofDatum e
      let bs ← Exp.ofBindings form ds
      return (x, e) :: bs
  | d :: _ => .error (.bindingExpected form d)

end

/-- Recognise what follows the keyword of a function definition.  Repeated formal
parameters are left to the definition itself. -/
def Lambda.ofParts (form : Datum) : List Datum → Except Malformed (String × Lambda)
  | [name, formals, body] => do
      let formals ← formalsOf form formals
      let body ← Exp.ofDatum body
      let name ← nameOf form name
      return (name, ⟨0, formals, body⟩)
  | _ => .error (.usage form Form.Keyword.define.usage)

/-- Recognise a top-level form of the functional language. -/
def recognise (d : Datum) : Except SyntaxError (Form Exp Lambda) :=
  (Form.ofDatum Exp.ofDatum Lambda.ofParts d).mapError Malformed.report

/-- A datum that may stand in a quotation: no symbol in it is a dot. -/
def quotable (d : Datum) : Except SyntaxError Datum :=
  if d.mentions "." then .error (Malformed.report .dotInQuotation) else .ok d

end Primer.Functional
