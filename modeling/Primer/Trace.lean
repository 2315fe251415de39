/-
Primer/Trace.lean

The trace of function calls.  A call is traced while the trace count is
positive.  Tracing it writes a line before the call and one after it, indented
by the nesting of traced calls, and uses up one of the count; when that was the
last one a further line says so.  A call that fails has no line after it.

The first line is written before anything else changes: if that fails, the count
and the indentation are as before.  If the further line cannot be written the
count is used up, and the indentation is as before.
-/
import Primer.Machine
import Primer.Number

namespace Primer.Trace

/-- The variable that holds the trace count. -/
def countName : String := "&trace"

/-- A call with the values of its arguments. -/
def callText (callee : String) (args : List String) : String :=
  args.foldl (fun acc arg => acc ++ " " ++ arg) ("(" ++ callee) ++ ")"

def padding (indent : Nat) : String := "".pushn ' ' indent

/-- The line before a call. -/
def openingLine (indent : Nat) (call : String) : String := padding indent ++ call ++ " => ..."

/-- The line that says that the count is used up. -/
def lastLine (indent : Nat) : String := padding indent ++ "... &trace goes to 0 ..."

/-- The line after a call. -/
def closingLine (indent : Nat) (call result : String) : String :=
  padding indent ++ call ++ " => " ++ result

/-- The indentation after leaving a traced call. -/
def outdent (indent : Nat) : Nat := indent - 2

variable {μ α : Type}

/-- Say that the count is used up, if nothing is left of it. -/
def noteLast (indent : Nat) (left : Number) (m : Machine μ) : Outcome (Machine μ) Unit :=
  if left.val = 0 then m.diagLine fun _ => lastLine indent else .value () m

/-- Enter a call; the value tells whether it is traced.  It is if there is a count
and it is positive, and only then is the text of the call made.  `spend` puts back
what is left of the count. -/
@[inline] def enter (count : Option Number) (spend : Number → Machine μ → Machine μ)
    (call : Unit → String) (m : Machine μ) : Outcome (Machine μ) Bool :=
  match count with
  | none => .value false m
  | some n =>
      if h : 0 < n.val then
        let indent := m.indent
        (m.diagLine fun _ => openingLine indent (call ())).andThen fun _ m =>
          (noteLast indent (n.pred h) (spend (n.pred h) m)).andThen fun _ m =>
            .value true { m with indent := indent + 2 }
      else .value false m

/-- Leave a traced call that ended in `result`.  If the closing line cannot be
written, that is how the call ends. -/
def leaveCall (call : String) (render : α → String) (result : Outcome (Machine μ) α) :
    Outcome (Machine μ) α :=
  match result with
  | .value a m =>
      let m := { m with indent := outdent m.indent }
      (m.diagLine fun _ => closingLine m.indent call (render a)).map fun _ => a
  | .fault e m => .fault e { m with indent := outdent m.indent }
  | .unfinished m => .unfinished m

/-- Make a call under the trace.  `count` is the trace count that the call sees. -/
@[inline] def around (count : Option Number) (spend : Number → Machine μ → Machine μ)
    (call : Unit → String) (render : α → String) (run : Machine μ → Outcome (Machine μ) α)
    (m : Machine μ) : Outcome (Machine μ) α :=
  (enter count spend call m).andThen fun traced m =>
    if traced then leaveCall (call ()) render (run m) else run m

end Primer.Trace
