/-
Primer/Datum.lean

Data as they are read: numbers, truth values, symbols and lists.  The printed
form `Datum.text` separates the items of a list by single spaces and always
uses round brackets.
-/
import Primer.Number

namespace Primer

/-- What one piece of program text denotes before any meaning is given to it. -/
inductive Datum where
  | number (n : Number)
  | bool (b : Bool)
  | symbol (name : String)
  | list (items : List Datum)

/-- The written form of a truth value. -/
def boolText (b : Bool) : String := if b then "#t" else "#f"

namespace Datum

mutual

/-- The printed form. -/
def text : Datum → String
  | number n => n.text
  | bool b => boolText b
  | symbol name => name
  | list items => "(" ++ textItems items ++ ")"

/-- The items of a list, separated by single spaces. -/
def textItems : List Datum → String
  | [] => ""
  | [d] => text d
  | d :: ds => text d ++ " " ++ textItems ds

end

/-- `(quote d)`, which the quote mark abbreviates. -/
def quoted (d : Datum) : Datum := list [symbol "quote", d]

/-- The name of a symbol. -/
def symbol? : Datum → Option String
  | symbol name => some name
  | _ => none

mutual

/-- Whether the symbol `name` occurs in a datum, at any depth. -/
def mentions (name : String) : Datum → Bool
  | number _ => false
  | bool _ => false
  | symbol other => other == name
  | list items => mentionsAny name items

/-- Whether the symbol `name` occurs in one of some data. -/
def mentionsAny (name : String) : List Datum → Bool
  | [] => false
  | d :: ds => mentions name d || mentionsAny name ds

end

end Datum

end Primer
