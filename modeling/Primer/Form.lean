/-
Primer/Form.lean

Top-level forms, which the two languages have in common: definitions, the use
of a file, and unit tests.  They differ in their expressions `ε` and in what a
function definition holds, `φ`.

A form is known by its keyword; a datum that begins with none of them is an
expression.
-/
import Primer.Malformed

namespace Primer

inductive Definition (ε φ : Type) where
  | val (name : String) (e : ε)
  | function (name : String) (f : φ)
  | exp (e : ε)

inductive UnitTest (ε : Type) where
  /-- two expressions have equal values -/
  | expect (actual expected : ε)
  /-- an expression has a true value -/
  | assert (e : ε)
  /-- an expression ends in an error -/
  | error (e : ε)

inductive Form (ε φ : Type) where
  | definition (d : Definition ε φ)
  | use (file : String)
  | test (t : UnitTest ε)

namespace Form

/-- The keywords of top-level forms. -/
inductive Keyword where
  | val
  | define
  | use
  | expect
  | assert
  | error
deriving DecidableEq

namespace Keyword

def name : Keyword → String
  | val => "val"
  | define => "define"
  | use => "use"
  | expect => "check-expect"
  | assert => "check-assert"
  | error => "check-error"

def ofName? : String → Option Keyword
  | "val" => some val
  | "define" => some define
  | "use" => some use
  | "check-expect" => some expect
  | "check-assert" => some assert
  | "check-error" => some error
  | _ => none

/-- The parts that a form of this keyword has. -/
def usage : Keyword → String
  | val => "(val x e)"
  | define => "(define f (x ...) e)"
  | use => "(use filename)"
  | expect => "(check-expect e e)"
  | assert => "(check-assert e)"
  | error => "(check-error e)"

end Keyword

/-- The keyword that a datum begins with, and the data after it. -/
def split? : Datum → Option (Keyword × List Datum)
  | .list (.symbol name :: parts) => (Keyword.ofName? name).map fun keyword => (keyword, parts)
  | _ => none

variable {ε φ : Type}

/-- Recognise a top-level form, given how the language recognises expressions
and what follows the keyword of a function definition. -/
def ofDatum (exp : Datum → Except Malformed ε)
    (function : Datum → List Datum → Except Malformed (String × φ)) (form : Datum) :
    Except Malformed (Form ε φ) :=
  match split? form with
  | none => do
      let e ← exp form
      return .definition (.exp e)
  | some (keyword, parts) =>
      match keyword, parts with
      | .val, [x, e] => do
          let x ← nameOf form x
          let e ← exp e
          return .definition (.val x e)
      | .define, parts => do
          let (name, f) ← function form parts
          return .definition (.function name f)
      | .use, [file] => do
          let file ← nameOf form file
          return .use file
      | .expect, [e, expected] => do
          let e ← exp e
          let expected ← exp expected
          return .test (.expect e expected)
      | .assert, [e] => do
          let e ← exp e
          return .test (.assert e)
      | .error, [e] => do
          let e ← exp e
          return .test (.error e)
      | keyword, _ => .error (.usage form keyword.usage)

end Form

end Primer
