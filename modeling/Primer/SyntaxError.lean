/-
Primer/SyntaxError.lean

Reports of text that is not a program.  A report has a kind and a message, and
where they are known the surrounding text, the offending text and the place of
the form in its source.
-/
import Primer.Text.Snippet

namespace Primer

/-- A line of a named source. -/
structure Location where
  source : String
  line : Nat
deriving DecidableEq

def Location.text (l : Location) : String := l.source ++ ", line " ++ toString l.line

/-- What sort of obstacle a report is about. -/
inductive SyntaxError.Kind where
  /-- a character or a form that has no place where it stands -/
  | invalid
  /-- the text ends inside a datum -/
  | incomplete
  /-- data nested beyond the limit -/
  | tooDeep
  /-- a numeral beyond the range of numbers -/
  | limit
deriving DecidableEq

/-- A report of text that is not a program. -/
structure SyntaxError where
  kind : SyntaxError.Kind
  message : String
  context : Option String
  found : Option String
  location : Option Location
deriving DecidableEq

namespace SyntaxError

/-- A report that knows nothing but its message. -/
def ofMessage (kind : Kind) (message : String) : SyntaxError :=
  ⟨kind, message, none, none, none⟩

/-- A report about the place `offset` bytes into `input`. -/
def inContext (kind : Kind) (message : String) (input : String) (offset : Nat) : SyntaxError :=
  ⟨kind, message, some (Text.snippet input offset), none, none⟩

/-- The report with a location; one that it already has stays. -/
def locate (e : SyntaxError) (l : Location) : SyntaxError :=
  { e with location := some (e.location.getD l) }

end SyntaxError

end Primer
