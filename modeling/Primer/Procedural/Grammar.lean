/-
Primer/Procedural/Grammar.lean

Which data are expressions and definitions of the procedural language.  A
function definition may have a clause of local variables before its body,
written in brackets of either shape.
-/
import Primer.Form
import Primer.Procedural.Exp

namespace Primer.Procedural

/-- The keywords of expressions. -/
inductive Keyword where
  | set
  | cond
  | loop
  | block
deriving DecidableEq

namespace Keyword

def name : Keyword → String
  | set => "set"
  | cond => "if"
  | loop => "while"
  | block => "begin"

def ofName? : String → Option Keyword
  | "set" => some set
  | "if" => some cond
  | "while" => some loop
  | "begin" => some block
  | _ => none

/-- The parts that an expression of this keyword has. -/
def usage : Keyword → String
  | set => "(set x e)"
  | cond => "(if e e e)"
  | loop => "(while e e)"
  | block => "(begin e ...)"

end Keyword

/-- Keywords of richer languages, which cannot name a function here. -/
def isForeign (name : String) : Bool :=
  ["quote", "lambda", "let", "let*", "letrec"].contains name

mutual

/-- Recognise an expression. -/
def Exp.ofDatum : Datum → Except Malformed Exp
  | .number n => .ok (.literal n)
  | .symbol name => .ok (.var name)
  | .bool b => .error (.truthValue b)
  | .list [] => .error .emptyList
  | .list (head :: parts) =>
      let form := Datum.list (head :: parts)
      match head.symbol? with
      | none => .error (.functionNameExpected form head)
      | some function =>
          match Keyword.ofName? function with
          | none =>
              if isForeign function then .error (.notProcedural form function)
              else do
                let args ← Exp.ofData parts
                return .call function args
          | some keyword =>
              match keyword, parts with
              | .set, [x, e] => do
                  let x ← nameOf form x
                  let e ← Exp.ofDatum e
                  return .set x e
              | .cond, [test, yes, no] => do
                  let test ← Exp.ofDatum test
                  let yes ← Exp.ofDatum yes
                  let no ← Exp.ofDatum no
                  return .cond test yes no
              | .loop, [test, body] => do
                  let test ← Exp.ofDatum test
                  let body ← Exp.ofDatum body
                  return .loop test body
              | .block, parts => do
                  let parts ← Exp.ofData parts
                  return .block parts
              | keyword, _ => .error (.usage form keyword.usage)

/-- Recognise a list of expressions. -/
def Exp.ofData : List Datum → Except Malformed (List Exp)
  | [] => .ok []
  | d :: ds => do
      let e ← Exp.ofDatum d
      let es ← Exp.ofData ds
      return e :: es

end

/-- Recognise a function from the data of its parts. -/
def Procedure.ofData (form name : Datum) (formals locals : List Datum) (body : Datum) :
    Except Malformed (String × Procedure) := do
  let formals ← namesOf form formals
  let locals ← namesOf form locals
  let body ← Exp.ofDatum body
  let name ← nameOf form name
  return (name, ⟨formals, locals, body⟩)

/-- Recognise what follows the keyword of a function definition.  Repeated formal
parameters are left to the definition itself. -/
def Procedure.ofParts (form : Datum) : List Datum → Except Malformed (String × Procedure)
  | [name, .list formals, body] => Procedure.ofData form name formals [] body
  | [name, .list formals, .list (.symbol "locals" :: locals), body] =>
      Procedure.ofData form name formals locals body
  | _ => .error (.usage form "(define f (x ...) [locals y ...] e)")

/-- Recognise a top-level form of the procedural language. -/
def recognise (d : Datum) : Except SyntaxError (Form Exp Procedure) :=
  (Form.ofDatum Exp.ofDatum Procedure.ofParts d).mapError Malformed.report

end Primer.Procedural
