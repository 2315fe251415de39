/-
Primer/Report.lean

How errors are reported where they are caught.  Evaluation never reports its
own failures.  An error that ends a top-level form is written to the
diagnostics; an error in a unit test is the outcome of the test and is passed
over here.
-/
import Primer.Console

namespace Primer

/-- Where an error is caught. -/
inductive CatchMode where
  | normal
  /-- while a unit test runs -/
  | testing
deriving DecidableEq

/-- Whether reports on interactive input tell the line. -/
inductive LocationStyle where
  | shown
  | hidden
deriving DecidableEq

/-- The name of interactive input as a source. -/
def standardInput : String := "standard input"

/-- The message that is printed for an error. -/
def Error.render (style : LocationStyle) : Error → String
  | .malformed e =>
      match e.location with
      | some l =>
          if style = .hidden ∧ l.source = standardInput then "syntax error: " ++ e.message
          else "syntax error in " ++ l.text ++ ": " ++ e.message
      | none => "syntax error: " ++ e.message
  | e => "Run-time error: " ++ e.message

namespace Console

/-- Write a line to the diagnostics after flushing `out`, so that it lands after
all that was printed before. -/
def note (c : Console) (line : String) : Outcome Console Unit :=
  (c.out.flush.mapState fun out => { c with out := out }).andThen fun _ c =>
    (c.diag.writeLine fun _ => line).mapState fun diag => { c with diag := diag }

/-- Report an error. -/
def report (c : Console) (mode : CatchMode) (style : LocationStyle) (e : Error) :
    Outcome Console Unit :=
  match mode with
  | .testing => .value () c
  | .normal =>
      (c.note (e.render style)).andThen fun _ c =>
        c.diag.flush.mapState fun diag => { c with diag := diag }

end Console

end Primer
