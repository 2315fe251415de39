/-
Primer/Text/Blank.lean

Two classes of characters.  A *blank* has the Unicode property White_Space; a
*delimiter* ends an atom: a blank, a bracket of either shape or a semicolon.
The quote mark is no delimiter, so it may stand inside an atom.

Only four of the blanks separate data in running text (`isLayout`); the others
end an atom but cannot stand between two data.
-/

namespace Primer.Text

/-- The characters with the property White_Space, as ranges of code points. -/
def blankRanges : List (Nat × Nat) :=
  [(0x09, 0x0D), (0x20, 0x20), (0x85, 0x85), (0xA0, 0xA0), (0x1680, 0x1680),
   (0x2000, 0x200A), (0x2028, 0x2029), (0x202F, 0x202F), (0x205F, 0x205F),
   (0x3000, 0x3000)]

/-- Membership of a code point in one of some closed ranges. -/
def inRanges (ranges : List (Nat × Nat)) (code : Nat) : Bool :=
  ranges.any fun (low, high) => low ≤ code && code ≤ high

def isBlank (c : Char) : Bool := inRanges blankRanges c.toNat

/-- Space, tab, carriage return and line feed: what may stand between data. -/
def isLayout (c : Char) : Bool :=
  c == ' ' || c == '\t' || c == '\r' || c == '\n'

/-- A character that ends an atom. -/
def isDelimiter (c : Char) : Bool :=
  isBlank c || c == '(' || c == ')' || c == '[' || c == ']' || c == ';'

/-- The text without the blanks at its two ends. -/
def trimBlanks (text : String) : String :=
  let front := text.toList.dropWhile isBlank
  String.ofList (front.reverse.dropWhile isBlank).reverse

/-- The text without the blanks at its end. -/
def trimEnd (text : String) : String :=
  String.ofList (text.toList.reverse.dropWhile isBlank).reverse

end Primer.Text
