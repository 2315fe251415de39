/-
Primer/Text/Quoted.lean

Text between double quotes, such that every character can be seen.  A quote and
a backslash get a backslash in front, some control characters have an escape of
one letter, and all else that would not show, or would join the character before
it, is written as its code point in hexadecimal.
-/
import Primer.Text.Blank
import Primer.Text.Extending
import Primer.Text.Unprintable

namespace Primer.Text

/-- Letters that are made to be invisible: they fill the place of a missing part of
a syllable. -/
def fillerRanges : List (Nat × Nat) := [(0x115F, 0x1160), (0x3164, 0x3164), (0xFFA0, 0xFFA0)]

/-- The two sound marks of half width.  They belong to the character before them,
but each has a shape and a cell of its own. -/
def soundMarkRanges : List (Nat × Nat) := [(0xFF9E, 0xFF9F)]

/-- Whether a character would not show by itself. -/
def isHidden (c : Char) : Bool :=
  (inRanges extendingRanges c.toNat && !inRanges soundMarkRanges c.toNat) ||
    inRanges unprintableRanges c.toNat || inRanges fillerRanges c.toNat

/-- The code point of a character, in braces. -/
def codePoint (c : Char) : String :=
  "\\u\x7b" ++ String.ofList (Nat.toDigits 16 c.toNat) ++ "\x7d"

/-- A character as it is written between quotes. -/
def quotedChar (c : Char) : String :=
  if c.toNat = 0 then "\\0"
  else if c == '\t' then "\\t"
  else if c == '\r' then "\\r"
  else if c == '\n' then "\\n"
  else if c == '\\' then "\\\\"
  else if c == '"' then "\\\""
  else if isHidden c then codePoint c
  else c.toString

/-- A text between double quotes. -/
def quoted (text : String) : String :=
  "\"" ++ text.toList.foldl (fun acc c => acc ++ quotedChar c) "" ++ "\""

end Primer.Text
