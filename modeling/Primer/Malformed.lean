/-
Primer/Malformed.lean

Why a datum is not a form of the language.  A constructor is a cause; the
wording of the report is chosen in `Malformed.message`.
-/
import Primer.Datum
import Primer.SyntaxError

namespace Primer

inductive Malformed where
  /-- the form does not have the parts that `shape` shows -/
  | usage (form : Datum) (shape : String)
  | nameExpected (form found : Datum)
  | namesExpected (form found : Datum)
  | bindingExpected (form found : Datum)
  | emptyList
  | dotInQuotation
  | repeatedFormal (form : Datum) (name : String)
  | repeatedBinding (form : Datum) (name keyword : String)
  /-- a truth value in the procedural language, which has only numbers -/
  | truthValue (b : Bool)
  | functionNameExpected (form found : Datum)
  /-- a form that the procedural language does not have -/
  | notProcedural (form : Datum) (keyword : String)

namespace Malformed

/-- The form that the report is about. -/
def form : Malformed → Datum
  | usage form _ => form
  | nameExpected form _ => form
  | namesExpected form _ => form
  | bindingExpected form _ => form
  | emptyList => .list []
  | dotInQuotation => .symbol "."
  | repeatedFormal form _ => form
  | repeatedBinding form _ _ => form
  | truthValue b => .bool b
  | functionNameExpected form _ => form
  | notProcedural form _ => form

/-- `in FORM, expected WHAT`. -/
def expected (form : Datum) (what : String) : String :=
  "in " ++ form.text ++ ", expected " ++ what

def message : Malformed → String
  | usage form shape => expected form shape
  | nameExpected form found => expected form ("a name but found " ++ found.text)
  | namesExpected form found => expected form ("a list of names but found " ++ found.text)
  | bindingExpected form found =>
      expected form ("(... (x e) ...) in bindings, but found " ++ found.text)
  | emptyList => "empty list () is not an expression"
  | dotInQuotation => "this interpreter cannot handle . in quoted S-expressions"
  | repeatedFormal _ name => "formal parameter " ++ name ++ " appears twice in lambda"
  | repeatedBinding _ name keyword => "bound name " ++ name ++ " appears twice in " ++ keyword
  | truthValue b =>
      boolText b ++ " is not an Impcore expression; use 1 and 0 for truth values"
  | functionNameExpected form found =>
      expected form ("a function name but found " ++ found.text)
  | notProcedural _ keyword => keyword ++ " is not part of Impcore"

/-- The report, which shows the form. -/
def report (m : Malformed) : SyntaxError :=
  ⟨.invalid, m.message, none, some m.form.text, none⟩

end Malformed

/-! ### Parts of forms -/

/-- A datum that has to be a name. -/
def nameOf (form d : Datum) : Except Malformed String :=
  match d with
  | .symbol name => .ok name
  | _ => .error (.nameExpected form d)

/-- Data that have to be names. -/
def namesOf (form : Datum) : List Datum → Except Malformed (List String)
  | [] => .ok []
  | d :: ds => do
      let name ← nameOf form d
      let names ← namesOf form ds
      return name :: names

end Primer
