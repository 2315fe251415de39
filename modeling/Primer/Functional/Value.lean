/-
Primer/Functional/Value.lean

Values of the functional language.  A closure pairs a lambda expression with
the environment it was made in: the frames in which its free names are looked
up, innermost first.  Frames are named by number; what they hold is in the
store.
-/
import Primer.Functional.Exp

namespace Primer.Functional

/-- A frame is known by its number. -/
abbrev FrameId := Nat

/-- The frames that a name is looked up in: one, and then those around it. -/
structure Env where
  inner : FrameId
  outer : List FrameId
deriving DecidableEq

/-- All the frames, innermost first. -/
def Env.frames (env : Env) : List FrameId := env.inner :: env.outer

/-- The primitive functions. -/
inductive Primitive where
  | add | sub | mul | div
  | less | greater | equal
  | print | println | printu
  | cons | car | cdr
  | isNull | isPair | isNumber | isSymbol | isBoolean | isFunction
  | error
deriving DecidableEq

namespace Primitive

/-- The primitives, in the order of the catalog. -/
def all : List Primitive :=
  [add, sub, mul, div, less, greater, equal, print, println, printu, cons, car, cdr,
   isNull, isPair, isNumber, isSymbol, isBoolean, isFunction, error]

/-- What a primitive is called. -/
def name : Primitive → String
  | add => "+"
  | sub => "-"
  | mul => "*"
  | div => "/"
  | less => "<"
  | greater => ">"
  | equal => "="
  | print => "print"
  | println => "println"
  | printu => "printu"
  | cons => "cons"
  | car => "car"
  | cdr => "cdr"
  | isNull => "null?"
  | isPair => "pair?"
  | isNumber => "number?"
  | isSymbol => "symbol?"
  | isBoolean => "boolean?"
  | isFunction => "function?"
  | error => "error"

/-- How many arguments a primitive takes. -/
def arity : Primitive → Nat
  | add | sub | mul | div | less | greater | equal | cons => 2
  | _ => 1

def ofName? (name : String) : Option Primitive := all.find? fun p => p.name == name

end Primitive

inductive Value where
  | number (n : Number)
  | bool (b : Bool)
  | symbol (name : String)
  | nil
  | pair (car cdr : Value)
  | closure (lambda : Lambda) (env : Env)
  | primitive (p : Primitive)
  /-- what a recursive binding holds until its initial value is known -/
  | unspecified

namespace Value

/-- Everything but `#f` counts as true. -/
def isTrue : Value → Bool
  | bool false => false
  | _ => true

def isFunction : Value → Bool
  | closure .. => true
  | primitive _ => true
  | _ => false

/-- A proper list. -/
def ofList (vs : List Value) : Value := vs.foldr pair nil

mutual

/-- The value of a quoted datum. -/
def ofDatum : Datum → Value
  | .number n => number n
  | .bool b => bool b
  | .symbol name => symbol name
  | .list items => ofData items

/-- The proper list of the values of some data. -/
def ofData : List Datum → Value
  | [] => nil
  | d :: ds => pair (ofDatum d) (ofData ds)

end

/-- The closures in a value. -/
def closures : Value → List (Lambda × Env)
  | pair a d => a.closures ++ d.closures
  | closure f env => [(f, env)]
  | _ => []

/-- The frames that the closures in a value have captured. -/
def captured (v : Value) : List FrameId := v.closures.flatMap fun c => c.2.frames

/-! ### Equality -/

/-- Equality of atoms.  Pairs and functions are never equal in this sense. -/
def equalAtoms : Value → Value → Bool
  | number a, number b => a == b
  | bool a, bool b => a == b
  | symbol a, symbol b => a == b
  | nil, nil => true
  | _, _ => false

/-- Structural equality of atoms and pairs, identity of functions: two closures
are equal if they come from the same lambda expression in the same environment.
The placeholder `unspecified` equals nothing. -/
def equal : Value → Value → Bool
  | pair a d, pair a' d' => equal a a' && equal d d'
  | closure f env, closure f' env' => f.label == f'.label && env == env'
  | primitive p, primitive p' => p == p'
  | v, w => equalAtoms v w

/-! ### Text -/

/-- The text of a value that is not a pair; a pair has none here. -/
def atomText : Value → String
  | number n => n.text
  | bool b => boolText b
  | symbol name => name
  | nil => "()"
  | pair .. => ""
  | closure .. => "<function>"
  | primitive _ => "<function>"
  | unspecified => "<unspecified>"

mutual

/-- Write a value after `before`. -/
def writeAfter (before : String) : Value → String
  | pair a d => writeRest (writeAfter (before ++ "(") a) d
  | v => before ++ atomText v

/-- Write what follows the first item of a list.  A rest that is neither a pair
nor the empty list stands after a dot. -/
def writeRest (before : String) : Value → String
  | nil => before ++ ")"
  | pair a d => writeRest (writeAfter (before ++ " ") a) d
  | v => before ++ " . " ++ atomText v ++ ")"

end

/-- The printed form. -/
def text (v : Value) : String := writeAfter "" v

/-- The printed form as an expression: symbols and lists need a quote mark. -/
def literalText (v : Value) : String :=
  match v with
  | symbol _ => "'" ++ v.text
  | nil => "'" ++ v.text
  | pair .. => "'" ++ v.text
  | _ => v.text

/-- The description of a value that is not a pair; a pair has none here. -/
def describeAtom : Value → String
  | number n => "Number(" ++ n.text ++ ")"
  | bool b => "Bool(" ++ toString b ++ ")"
  | symbol name => "Symbol(" ++ name ++ ")"
  | nil => "Nil"
  | pair .. => ""
  | closure f _ => "Closure(" ++ f.text ++ ")"
  | primitive p => "Primitive(" ++ p.name ++ ")"
  | unspecified => "Unspecified"

/-- Describe a value after `before`, then close `pending` brackets. -/
def describeAfter (before : String) (pending : Nat) : Value → String
  | pair a d => describeAfter (describeAfter (before ++ "Pair(") 0 a ++ ", ") (pending + 1) d
  | v => (before ++ describeAtom v).pushn ')' pending

/-- A description that shows how the value is built. -/
def describe (v : Value) : String := describeAfter "" 0 v

end Value

end Primer.Functional
