/-
Primer/Text/Cluster.lean

Text cut into *clusters*: what a reader takes for one character, though it may
be written as several.  An accent belongs to the letter under it, the jamo of a
syllable belong together, and so do two letters that name a flag, pictures that
are tied by a joiner and consonants that are linked to a conjunct.  The rules are
those of the extended grapheme clusters of Unicode.

Whether a character goes on with the cluster before it depends on all of the
text before it, but little of that has to be known: a `Trail`.  So a text is cut
in one pass from left to right.  Cutting loses nothing (`flatten_clusters`).
-/
import Primer.Text.Blank
import Primer.Text.Conjunct
import Primer.Text.Extending
import Primer.Text.Pictograph
import Primer.Text.Spacing

namespace Primer.Text

/-- How a character behaves at the border of a cluster. -/
inductive Class where
  | carriageReturn
  | lineFeed
  | control
  /-- joins whatever is before it -/
  | extend
  /-- ties two pictures -/
  | joiner
  /-- half of a flag -/
  | regional
  /-- takes what follows into its cluster -/
  | prepended
  | spacing
  /-- the first consonant of a syllable -/
  | leading
  | vowel
  /-- the last consonant of a syllable -/
  | trailing
  /-- a syllable without a last consonant -/
  | openSyllable
  | closedSyllable
  | consonant
  | pictograph
  | other
deriving DecidableEq

namespace Class

/-- Controls and invisible signs of format, line ends apart. -/
def controlRanges : List (Nat × Nat) :=
  [(0x0, 0x9), (0xB, 0xC), (0xE, 0x1F), (0x7F, 0x9F), (0xAD, 0xAD), (0x61C, 0x61C),
   (0x180E, 0x180E), (0x200B, 0x200B), (0x200E, 0x200F), (0x2028, 0x202E), (0x2060, 0x206F),
   (0xFEFF, 0xFEFF), (0xFFF0, 0xFFFB), (0x13430, 0x1343F), (0x1BCA0, 0x1BCA3), (0x1D173, 0x1D17A),
   (0xE0000, 0xE001F), (0xE0080, 0xE00FF), (0xE01F0, 0xE0FFF)]

/-- Signs that stand in front of what they belong to. -/
def prependedRanges : List (Nat × Nat) :=
  [(0x600, 0x605), (0x6DD, 0x6DD), (0x70F, 0x70F), (0x890, 0x891), (0x8E2, 0x8E2), (0xD4E, 0xD4E),
   (0x110BD, 0x110BD), (0x110CD, 0x110CD), (0x111C2, 0x111C3), (0x113D1, 0x113D1),
   (0x1193F, 0x1193F), (0x11941, 0x11941), (0x11A84, 0x11A89), (0x11D46, 0x11D46),
   (0x11F02, 0x11F02)]

/-- Modifiers of the colour of a picture. -/
def modifierRanges : List (Nat × Nat) := [(0x1F3FB, 0x1F3FF)]

def regionalRanges : List (Nat × Nat) := [(0x1F1E6, 0x1F1FF)]

def leadingRanges : List (Nat × Nat) := [(0x1100, 0x115F), (0xA960, 0xA97C)]

def vowelRanges : List (Nat × Nat) :=
  [(0x1160, 0x11A7), (0xD7B0, 0xD7C6), (0x16D63, 0x16D63), (0x16D67, 0x16D6A)]

def trailingRanges : List (Nat × Nat) := [(0x11A8, 0x11FF), (0xD7CB, 0xD7FB)]

/-- The whole syllables.  They come in groups of 28, the first of which has no
last consonant. -/
def syllableRanges : List (Nat × Nat) := [(0xAC00, 0xD7A3)]

/-- The class of a character outside of ASCII. -/
def ofCode (code : Nat) : Class :=
  if code = 0x200D then joiner
  else if inRanges controlRanges code then control
  else if inRanges extendingRanges code || inRanges modifierRanges code then extend
  else if inRanges spacingRanges code then spacing
  else if inRanges prependedRanges code then prepended
  else if inRanges regionalRanges code then regional
  else if inRanges leadingRanges code then leading
  else if inRanges vowelRanges code then vowel
  else if inRanges trailingRanges code then trailing
  else if inRanges syllableRanges code then
    if (code - 0xAC00) % 28 = 0 then openSyllable else closedSyllable
  else if inRanges consonantRanges code then consonant
  else if inRanges pictographRanges code then pictograph
  else other

/-- The class of a character. -/
def ofChar (c : Char) : Class :=
  if c = '\r' then carriageReturn
  else if c = '\n' then lineFeed
  else if 0x20 ≤ c.toNat ∧ c.toNat < 0x7F then other
  else ofCode c.toNat

/-- Whether a character always stands by itself, a carriage return before a line
feed apart. -/
def isControl (k : Class) : Bool :=
  match k with
  | carriageReturn => true
  | lineFeed => true
  | control => true
  | _ => false

/-- Whether two parts of a syllable can follow each other in it. -/
def sameSyllable : Class → Class → Bool
  | leading, k => (k matches leading | vowel | openSyllable | closedSyllable)
  | openSyllable, k => (k matches vowel | trailing)
  | vowel, k => (k matches vowel | trailing)
  | closedSyllable, k => (k matches trailing)
  | trailing, k => (k matches trailing)
  | _, _ => false

end Class

/-- Whether a character links the consonants on its two sides. -/
def isLinker (c : Char) : Bool := inRanges linkerRanges c.toNat

/-- How much of a conjunct a text ends in. -/
inductive Conjunct where
  | none
  /-- a consonant, perhaps with marks after it -/
  | consonant
  /-- a consonant and a link to the next one -/
  | linked
deriving DecidableEq

/-- What has to be known of a text to tell whether the next character goes on with
its last cluster. -/
structure Trail where
  /-- the class of the last character -/
  last : Class
  /-- the text ends in a picture, perhaps with marks after it -/
  picture : Bool
  /-- the text ends in such a picture and a joiner -/
  tied : Bool
  /-- the text ends in an odd number of halves of flags -/
  halfFlag : Bool
  conjunct : Conjunct

namespace Trail

/-- The trail of the empty text: a cluster begins there, as after a control. -/
def start : Trail := ⟨.control, false, false, false, .none⟩

/-- Whether a character of class `k` goes on with the last cluster. -/
def joins (t : Trail) (k : Class) : Bool :=
  if t.last = .carriageReturn ∧ k = .lineFeed then true
  else if t.last.isControl || k.isControl then false
  else if t.last.sameSyllable k then true
  else if t.last = .prepended then true
  else match k with
    | .extend => true
    | .joiner => true
    | .spacing => true
    | .consonant => t.conjunct = .linked
    | .pictograph => t.tied
    | .regional => t.halfFlag
    | _ => false

/-- How much of a conjunct there is after one more character.  Marks may stand
inside a conjunct, but not the sign that keeps two characters apart. -/
def conjunctAfter (t : Trail) (c : Char) (k : Class) : Conjunct :=
  match k with
  | .consonant => .consonant
  | .joiner => t.conjunct
  | .extend =>
      if c.toNat = 0x200C then .none
      else if isLinker c ∧ t.conjunct = .consonant then .linked
      else t.conjunct
  | _ => .none

/-- The trail after one more character. -/
def push (t : Trail) (c : Char) : Trail :=
  let k := Class.ofChar c
  { last := k
    picture := k = .pictograph || (k = .extend && t.picture)
    tied := k = .joiner && t.picture
    halfFlag := k = .regional && !t.halfFlag
    conjunct := t.conjunctAfter c k }

end Trail

/-- The clusters of a text, after a text with the trail `t` whose last cluster is
`current`, last character first. -/
def clustersAfter (t : Trail) (current : List Char) : List Char → List (List Char)
  | [] => [current.reverse]
  | c :: cs =>
      if t.joins (Class.ofChar c) then clustersAfter (t.push c) (c :: current) cs
      else current.reverse :: clustersAfter (t.push c) [c] cs

/-- The clusters of a text. -/
def clusters : List Char → List (List Char)
  | [] => []
  | c :: cs => clustersAfter (Trail.start.push c) [c] cs

theorem flatten_clustersAfter (t : Trail) (current cs : List Char) :
    (clustersAfter t current cs).flatten = current.reverse ++ cs := by
  induction cs generalizing t current with
  | nil => simp [clustersAfter]
  | cons c cs ih =>
    unfold clustersAfter
    split <;> simp [ih]

/-- A text is what its clusters are together. -/
theorem flatten_clusters (cs : List Char) : (clusters cs).flatten = cs := by
  cases cs with
  | nil => rfl
  | cons c cs => simp [clusters, flatten_clustersAfter]

end Primer.Text
