/-
Primer/Machine.lean

The state of an interpreter, for both languages: what the language keeps in its
memory, the console, and how far the trace of calls is indented.
-/
import Primer.Console

namespace Primer

/-- The state of an interpreter whose language keeps a `μ`. -/
structure Machine (μ : Type) where
  memory : μ
  console : Console
  indent : Nat

/-- Whether a definition prints what it defines. -/
inductive Echo where
  | on
  | off
deriving DecidableEq

namespace Machine

variable {μ : Type}

/-- Forget the nesting of calls that an error abandoned. -/
def resetTrace (m : Machine μ) : Machine μ := { m with indent := 0 }

@[inline] def withOut (m : Machine μ) (out : Channel) : Machine μ :=
  { m with console := { m.console with out := out } }

@[inline] def withDiag (m : Machine μ) (diag : Channel) : Machine μ :=
  { m with console := { m.console with diag := diag } }

/-- Write a line to `out`. -/
def printLine (m : Machine μ) (line : Unit → String) : Outcome (Machine μ) Unit :=
  (m.console.out.writeLine line).mapState m.withOut

/-- Write a line to the diagnostics. -/
def diagLine (m : Machine μ) (line : Unit → String) : Outcome (Machine μ) Unit :=
  (m.console.diag.writeLine line).mapState m.withDiag

/-- Print a line if echoing is on.  If it is off the line is not even made. -/
def echo (m : Machine μ) (echo : Echo) (line : Unit → String) : Outcome (Machine μ) Unit :=
  match echo with
  | .on => m.printLine line
  | .off => .value () m

end Machine

end Primer
