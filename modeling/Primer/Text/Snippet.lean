/-
Primer/Text/Snippet.lean

The piece of a text that is shown with an error: a hundred characters, from a
little before the place of the error, on one line.  `[...]` marks the ends at
which text was left out.

The place is given in bytes of the UTF-8 form.  It is from this number that the
window's start is computed, and the window is then counted off in characters;
for text beyond ASCII the window therefore starts later than the place itself
would suggest.
-/

namespace Primer.Text

/-- How far before the error a snippet starts. -/
def snippetLead : Nat := 20

/-- The number of characters that a snippet shows. -/
def snippetSize : Nat := 100

/-- Where text was left out. -/
def ellipsis : String := "[...]"

/-- A text on one line: a line feed becomes a backslash and `n`, a carriage
return is dropped. -/
def oneLine (text : String) : String :=
  String.ofList (text.toList.flatMap fun c =>
    if c == '\n' then ['\\', 'n'] else if c == '\r' then [] else [c])

/-- The snippet of `text` for an error `offset` bytes into it. -/
def snippet (text : String) (offset : Nat) : String :=
  let start := offset - snippetLead
  let shown := String.ofList ((text.toList.drop start).take snippetSize)
  let before := if start > 0 then ellipsis else ""
  let after := if start + shown.utf8ByteSize < text.utf8ByteSize then ellipsis else ""
  oneLine (before ++ shown ++ after)

end Primer.Text
