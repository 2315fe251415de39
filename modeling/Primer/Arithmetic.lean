/-
Primer/Arithmetic.lean

Arithmetic on numbers as the primitives of both languages do it, with the
errors of its failures, and the printing of a number as a character.
-/
import Primer.Console
import Primer.Number

namespace Primer.Arithmetic

/-- A result that has to be in range. -/
def inRange (result : Option Number) : Except Error Number :=
  match result with
  | some n => .ok n
  | none => .error (.overflow none)

def add (a b : Number) : Except Error Number := inRange (a.add? b)

def sub (a b : Number) : Except Error Number := inRange (a.sub? b)

def mul (a b : Number) : Except Error Number := inRange (a.mul? b)

/-- The quotient rounded toward zero. -/
def div (a b : Number) : Except Error Number :=
  if b.val = 0 then .error (.divisionByZero none) else inRange (a.div? b)

/-- The character with this code point. -/
def character? (n : Number) : Option Char :=
  if n.val < 0 then none
  else
    let code := n.val.toNat
    if code.isValidChar then some (Char.ofNat code) else none

/-- Write the character with a code point. -/
def emitCharacter (out : Channel) (n : Number) : Outcome Channel Unit :=
  match character? n with
  | some c => out.write c.toString
  | none => .fault (.failure ("printu: " ++ n.text ++ " is not a Unicode code point")) out

end Primer.Arithmetic
