/-
Primer/Procedural/Primitive.lean

The primitive functions of the procedural language.  Comparisons answer 1 or 0;
the printing primitives return their argument.
-/
import Primer.Arithmetic

namespace Primer.Procedural

inductive Primitive where
  | add | sub | mul | div
  | less | greater | equal
  | print | println | printu
deriving DecidableEq

namespace Primitive

/-- The primitives, in the order of the catalog. -/
def all : List Primitive :=
  [add, sub, mul, div, less, greater, equal, print, println, printu]

/-- What a primitive is called. -/
def name : Primitive → String
  | add => "+"
  | sub => "-"
  | mul => "*"
  | div => "/"
  | less => "<"
  | greater => ">"
  | equal => "="
  | print => "print"
  | println => "println"
  | printu => "printu"

/-- How many arguments a primitive takes. -/
def arity : Primitive → Nat
  | print | println | printu => 1
  | _ => 2

def ofName? (name : String) : Option Primitive := all.find? fun p => p.name == name

/-- Apply a primitive; the state is the channel that it prints to. -/
def run (p : Primitive) (args : List Number) (out : Channel) : Outcome Channel Number :=
  match p, args with
  | add, [a, b] => .ofExcept (Arithmetic.add a b) out
  | sub, [a, b] => .ofExcept (Arithmetic.sub a b) out
  | mul, [a, b] => .ofExcept (Arithmetic.mul a b) out
  | div, [a, b] => .ofExcept (Arithmetic.div a b) out
  | less, [a, b] => .value (.ofBool (decide (a.val < b.val))) out
  | greater, [a, b] => .value (.ofBool (decide (b.val < a.val))) out
  | equal, [a, b] => .value (.ofBool (decide (a = b))) out
  | print, [a] => (out.write a.text).map fun _ => a
  | println, [a] => (out.write (a.text ++ "\n")).map fun _ => a
  | printu, [a] => (Arithmetic.emitCharacter out a).map fun _ => a
  | _, _ => .fault (.arity p.arity args.length none) out

end Primitive

end Primer.Procedural
