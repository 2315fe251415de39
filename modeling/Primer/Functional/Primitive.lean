/-
Primer/Functional/Primitive.lean

What the primitives of the functional language do.  The number of arguments is
checked first, then the operands from left to right, then the operation itself.
The printing primitives return their argument.  Only a symbol can have an empty
text, and to print nothing succeeds on any channel.
-/
import Primer.Arithmetic
import Primer.Functional.Value

namespace Primer.Functional.Primitive

/-- An operand that has to be a number. -/
def operand (p : Primitive) : Value → Except Error Number
  | .number n => .ok n
  | v => .error (.wrongType
      ("operands of " ++ p.name ++ " must be numbers, but got " ++ v.text))

/-- Two operands that have to be numbers. -/
def operands (p : Primitive) (v w : Value) : Except Error (Number × Number) := do
  let a ← p.operand v
  let b ← p.operand w
  return (a, b)

/-- The result of a primitive that only computes. -/
def compute (p : Primitive) (args : List Value) : Except Error Value :=
  match p, args with
  | add, [v, w] => do
      let (a, b) ← p.operands v w
      return .number (← Arithmetic.add a b)
  | sub, [v, w] => do
      let (a, b) ← p.operands v w
      return .number (← Arithmetic.sub a b)
  | mul, [v, w] => do
      let (a, b) ← p.operands v w
      return .number (← Arithmetic.mul a b)
  | div, [v, w] => do
      let (a, b) ← p.operands v w
      return .number (← Arithmetic.div a b)
  | less, [v, w] => do
      let (a, b) ← p.operands v w
      return .bool (decide (a.val < b.val))
  | greater, [v, w] => do
      let (a, b) ← p.operands v w
      return .bool (decide (b.val < a.val))
  | equal, [v, w] => .ok (.bool (v.equalAtoms w))
  | cons, [v, w] => .ok (.pair v w)
  | car, [.pair a _] => .ok a
  | car, [v] => .error (.wrongType ("car applied to non-pair " ++ v.text))
  | cdr, [.pair _ d] => .ok d
  | cdr, [v] => .error (.wrongType ("cdr applied to non-pair " ++ v.text))
  | isNull, [v] => .ok (.bool (v matches .nil))
  | isPair, [v] => .ok (.bool (v matches .pair ..))
  | isNumber, [v] => .ok (.bool (v matches .number _))
  | isSymbol, [v] => .ok (.bool (v matches .symbol _))
  | isBoolean, [v] => .ok (.bool (v matches .bool _))
  | isFunction, [v] => .ok (.bool v.isFunction)
  | error, [v] => .error (.failure v.text)
  | _, _ => .error (.arity p.arity args.length none)

/-- Apply a primitive; the state is the channel that it prints to. -/
def run (p : Primitive) (args : List Value) (out : Channel) : Outcome Channel Value :=
  match p, args with
  | print, [.symbol name] => (out.write name).map fun _ => .symbol name
  | print, [v] => (out.writeText fun _ => v.text).map fun _ => v
  | println, [v] => (out.writeLine fun _ => v.text).map fun _ => v
  | printu, [v] =>
      (Outcome.ofExcept (p.operand v) out).andThen fun n out =>
        (Arithmetic.emitCharacter out n).map fun _ => v
  | _, _ => .ofExcept (p.compute args) out

end Primer.Functional.Primitive
