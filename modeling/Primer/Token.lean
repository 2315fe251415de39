/-
Primer/Token.lean

Tokens of program text.  Text is read one character at a time: `Scan.step`
takes the state after some text to the state after one character more, and
`Token.ofText` folds it over the whole text.  So the tokens of a text whose reading
has come back to `Mode.between` do not depend on what follows.

A comment runs from a semicolon to the end of its line.  The line may end in a
line feed, in a carriage return and a line feed, or with the text.  A carriage
return that no line feed follows ends no line: then the semicolon itself is a
stray character, and it is the stray that takes the comment's place among the
tokens.

The lines are counted as the characters go by, so every token knows its own line;
no place has to be remembered from which to count on.  Counting on from one datum to
the next comes to the same lines (`Primer.Proofs.Descent`).
-/
import Primer.Text.Blank

namespace Primer

/-- The two shapes of brackets.  They may be used alike but have to match. -/
inductive Bracket where
  | round
  | square
deriving DecidableEq

namespace Bracket

def opening : Bracket → Char
  | round => '('
  | square => '['

def closing : Bracket → Char
  | round => ')'
  | square => ']'

end Bracket

/-- What a token is, apart from where it stands. -/
inductive Lexeme where
  | opening (shape : Bracket)
  | closing (shape : Bracket)
  | quote
  | atom (text : List Char)
  /-- a character that can stand nowhere between data -/
  | stray (c : Char)
deriving DecidableEq

/-- How many characters a lexeme has. -/
def Lexeme.size : Lexeme → Nat
  | atom text => text.length
  | _ => 1

/-- A place in a text: how many characters stand before it, and its line. -/
structure Position where
  offset : Nat
  line : Nat
deriving DecidableEq

namespace Position

/-- The start of a text. -/
def start : Position := ⟨0, 1⟩

/-- The place after one character. -/
def advance (p : Position) (c : Char) : Position :=
  ⟨p.offset + 1, if c == '\n' then p.line + 1 else p.line⟩

end Position

/-- A lexeme and the place of its first character. -/
structure Token where
  lexeme : Lexeme
  position : Position
deriving DecidableEq

namespace Token

/-- The number of characters before the token. -/
def offset (t : Token) : Nat := t.position.offset

/-- The number of characters up to the end of the token. -/
def stop (t : Token) : Nat := t.offset + t.lexeme.size

end Token

/-! ### Reading one character at a time -/

/-- What the characters read last belong to.  The position is that of the
first character of the atom or comment; the characters of an atom are kept in
reverse. -/
inductive Mode where
  | between
  | atom (position : Position) (reversed : List Char)
  | comment (position : Position)
  /-- in a comment, just after a carriage return -/
  | carriage (position : Position)

/-- The state of reading: where we are, and the tokens so far, last first. -/
structure Scan where
  mode : Mode
  position : Position
  found : List Token

namespace Scan

def start : Scan := ⟨.between, .start, []⟩

/-- What a character at `p` begins when it stands between tokens: the next
mode, and the token if it is one by itself. -/
def opens (p : Position) (c : Char) : Mode × Option Lexeme :=
  if Text.isLayout c then (.between, none)
  else if c == ';' then (.comment p, none)
  else if c == '(' then (.between, some (.opening .round))
  else if c == '[' then (.between, some (.opening .square))
  else if c == ')' then (.between, some (.closing .round))
  else if c == ']' then (.between, some (.closing .square))
  else if c.toNat == 39 then (.between, some .quote)
  else if Text.isDelimiter c then (.between, some (.stray c))
  else (.atom p [c], none)

/-- Begin at a character between tokens, after adding the tokens `before`. -/
def enter (s : Scan) (c : Char) (before : List Token) : Scan :=
  match opens s.position c with
  | (mode, none) => ⟨mode, s.position.advance c, before⟩
  | (mode, some lexeme) => ⟨mode, s.position.advance c, ⟨lexeme, s.position⟩ :: before⟩

/-- The atom token of a mode's characters. -/
def atomToken (p : Position) (reversed : List Char) : Token :=
  ⟨.atom reversed.reverse, p⟩

/-- The semicolon of a comment that does not end as a comment must. -/
def strayToken (p : Position) : Token := ⟨.stray ';', p⟩

/-- Read one character. -/
def step (s : Scan) (c : Char) : Scan :=
  match s.mode with
  | .between => s.enter c s.found
  | .atom p reversed =>
      if Text.isDelimiter c then s.enter c (atomToken p reversed :: s.found)
      else ⟨.atom p (c :: reversed), s.position.advance c, s.found⟩
  | .comment p =>
      let mode := if c == '\n' then .between else if c == '\r' then .carriage p else s.mode
      ⟨mode, s.position.advance c, s.found⟩
  | .carriage p =>
      if c == '\n' then ⟨.between, s.position.advance c, s.found⟩
      else s.enter c (strayToken p :: s.found)

/-- The tokens, last first, when the text ends here. -/
def finish (s : Scan) : List Token :=
  match s.mode with
  | .between => s.found
  | .atom p reversed => atomToken p reversed :: s.found
  | .comment _ => s.found
  | .carriage p => strayToken p :: s.found

end Scan

/-- The tokens of a text, in order. -/
def Token.ofText (text : List Char) : List Token :=
  (text.foldl Scan.step .start).finish.reverse

end Primer
