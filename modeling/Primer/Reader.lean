/-
Primer/Reader.lean

Reading data from text.  The tokens are read one at a time (`Reading.step`);
the state holds the items finished so far and, within a datum, the stack of
lists and quote marks that are still open.  Two things can go wrong.

* A token has no place where it stands, a datum is nested too deeply, or the
  text ends within a datum.  Such a fault ends the reading.
* A numeral is beyond the range of numbers.  This spoils the datum that it
  stands in and nothing else, so reading goes on: the numeral is read as a
  symbol, which keeps the shape of the text, and the item remembers the first
  numeral of this kind.

An item's `body` is what was read with every numeral accepted; its `result`
is the same datum only if no numeral was out of range.

One pass over the tokens stands for two.  A reader that goes down into the data
and stops at a numeral out of range has to read the datum once more, with every
numeral accepted, to see where it ends.  Here both are done at once, and an item
has what either would have come to: `Primer.Proofs.Descent` has the reader that
goes down, and the proof that it finds the same items.
-/
import Primer.Datum
import Primer.SyntaxError
import Primer.Token

namespace Primer

/-- Data may be nested this deeply. -/
def maxNesting : Nat := 256

/-- Why a datum could not be read. -/
inductive Obstacle where
  | endOfText
  | tooDeep
  | misplaced
  | oversized (numeral : List Char)
deriving DecidableEq

/-- An obstacle and the number of characters before it. -/
structure Fault where
  obstacle : Obstacle
  offset : Nat
deriving DecidableEq

/-- One thing read from a text: a datum or the fault in its place. -/
structure Item where
  start : Position
  /-- the number of characters up to its end -/
  stop : Nat
  /-- the first numeral out of range -/
  oversized : Option Fault
  /-- the datum when numerals out of range count as symbols -/
  body : Except Fault Datum

/-- The datum, or the first fault met in reading it. -/
def Item.result (i : Item) : Except Fault Datum :=
  match i.oversized with
  | some fault => .error fault
  | none => i.body

/-! ### Atoms -/

/-- What an atom denotes.  A numeral out of range denotes the symbol of the
same spelling. -/
def Datum.ofAtom (text : List Char) : Datum :=
  if text = ['#', 't'] then .bool true
  else if text = ['#', 'f'] then .bool false
  else match (Number.numeral? text).bind Number.ofInt? with
    | some n => .number n
    | none => .symbol (String.ofList text)

/-- Whether an atom is a numeral out of range. -/
def isOversized (text : List Char) : Bool :=
  match Number.numeral? text with
  | some i => (Number.ofInt? i).isNone
  | none => false

/-- The fault of a token that is a numeral out of range. -/
def Token.oversized? (t : Token) : Option Fault :=
  match t.lexeme with
  | .atom text => if isOversized text then some ⟨.oversized text, t.offset⟩ else none
  | _ => none

/-! ### Open data -/

/-- A list, with the items it has so far in reverse, or a quote mark: what
waits for more. -/
inductive Pending where
  | list (shape : Bracket) (reversed : List Datum)
  | quote

/-- Where a finished datum leads: it is whole, or it went into something that
is still open. -/
inductive Settled where
  | whole (d : Datum)
  | inside (stack : List Pending)

namespace Pending

/-- Put a finished datum where it belongs. -/
def settle (d : Datum) : List Pending → Settled
  | [] => .whole d
  | .quote :: stack => settle d.quoted stack
  | .list shape reversed :: stack => .inside (.list shape (d :: reversed) :: stack)

/-- Close the innermost list, which must have been opened with this shape. -/
def close (t : Token) (shape : Bracket) : List Pending → Except Fault Settled
  | .list opened reversed :: stack =>
      if shape = opened then .ok (settle (.list reversed.reverse) stack)
      else .error ⟨.misplaced, t.offset⟩
  | _ => .error ⟨.misplaced, t.offset⟩

/-- Take a token that begins a datum.  The datum is under as many lists and quote
marks as are open, and a quote mark puts the next one under one more. -/
def begin (t : Token) (stack : List Pending) : Except Fault Settled :=
  if stack.length ≥ maxNesting then .error ⟨.tooDeep, t.offset⟩
  else match t.lexeme with
    | .opening shape => .ok (.inside (.list shape [] :: stack))
    | .quote =>
        if stack.length + 1 ≥ maxNesting then .error ⟨.tooDeep, t.offset + 1⟩
        else .ok (.inside (.quote :: stack))
    | .atom text => .ok (settle (.ofAtom text) stack)
    | _ => .error ⟨.misplaced, t.offset⟩

/-- Take one token under the open data. -/
def accept (t : Token) (stack : List Pending) : Except Fault Settled :=
  match t.lexeme with
  | .closing shape => close t shape stack
  | _ => begin t stack

end Pending

/-! ### Reading one token at a time -/

/-- How far the reading of the current datum has come. -/
inductive Progress where
  | between
  | within (start : Position) (stack : List Pending) (oversized : Option Fault)
  /-- after a fault that ends the reading -/
  | stopped

/-- The items so far, last first, and the datum being read. -/
structure Reading where
  items : List Item
  progress : Progress

namespace Reading

def start : Reading := ⟨[], .between⟩

/-- Take a token as the next one of a datum that starts at `p`. -/
def take (items : List Item) (p : Position) (stack : List Pending) (oversized : Option Fault)
    (t : Token) : Reading :=
  match Pending.accept t stack with
  | .error fault => ⟨⟨p, t.stop, oversized, .error fault⟩ :: items, .stopped⟩
  | .ok (.whole d) => ⟨⟨p, t.stop, oversized.or t.oversized?, .ok d⟩ :: items, .between⟩
  | .ok (.inside stack) => ⟨items, .within p stack (oversized.or t.oversized?)⟩

/-- Read one token. -/
def step (r : Reading) (t : Token) : Reading :=
  match r.progress with
  | .stopped => r
  | .between => take r.items t.position [] none t
  | .within p stack oversized => take r.items p stack oversized t

/-- The items, last first, when a text of `size` characters ends here. -/
def finish (r : Reading) (size : Nat) : List Item :=
  match r.progress with
  | .within p _ oversized => ⟨p, size, oversized, .error ⟨.endOfText, size⟩⟩ :: r.items
  | _ => r.items

end Reading

/-- The items of a text, in order. -/
def Item.ofText (text : List Char) : List Item :=
  (((Token.ofText text).foldl Reading.step .start).finish text.length).reverse

/-! ### Reports -/

namespace Fault

/-- The report of a fault in `text`, with the offending text.  At the end of the
text nothing offends but the lack of more, whatever the obstacle was. -/
def report (f : Fault) (text : List Char) : SyntaxError :=
  let offset := (String.ofList (text.take f.offset)).utf8ByteSize
  let make (kind : SyntaxError.Kind) (message : String) (found : Option String) : SyntaxError :=
    { SyntaxError.inContext kind message (String.ofList text) offset with found := found }
  match f.obstacle, text.drop f.offset with
  | .oversized numeral, _ =>
      let numeral := String.ofList numeral
      make .limit ("arithmetic overflow in integer literal " ++ numeral) (some numeral)
  | _, [] => make .incomplete "unexpected end of input" none
  | .endOfText, _ => make .incomplete "unexpected end of input" none
  | .tooDeep, c :: _ =>
      make .tooDeep ("expression too deeply nested (max depth: " ++ toString maxNesting ++ ")")
        (some c.toString)
  | .misplaced, c :: _ => make .invalid ("unexpected '" ++ c.toString ++ "'") (some c.toString)

/-- The same fault seen from `start` characters into the text. -/
def since (f : Fault) (start : Nat) : Fault := { f with offset := f.offset - start }

end Fault

/-- A datum read from a named source, or the report in its place. -/
structure Entry where
  location : Location
  result : Except SyntaxError Datum

/-- The data of a named source, each with its location.  A report shows the
text from the start of its own datum on. -/
def readAll (source : String) (input : String) : List Entry :=
  let text := input.toList
  (Item.ofText text).map fun item =>
    let location : Location := ⟨source, item.start.line⟩
    let start := item.start.offset
    ⟨location, item.result.mapError fun fault =>
      ((fault.since start).report (text.drop start)).locate location⟩

/-- Whether the text stops within a datum, so that more text may complete it. -/
def needsMore (input : String) : Bool :=
  (readAll "" input).any fun entry =>
    match entry.result with
    | .error e => e.kind == .incomplete
    | .ok _ => false

/-- The report of text that is left after a datum. -/
def leftover (text : List Char) (offset : Nat) : SyntaxError :=
  let rest := text.drop offset
  let before := String.ofList (text.take offset)
  { SyntaxError.inContext .invalid ("unexpected remaining input: '" ++ String.ofList rest ++ "'")
      (String.ofList text) before.utf8ByteSize with
    found := rest.head?.map fun c => c.toString }

/-- The datum of a text that holds exactly one. -/
def readOne (input : String) : Except SyntaxError Datum :=
  let text := input.toList
  match Item.ofText text with
  | [] => .error ((Fault.mk .endOfText text.length).report text)
  | first :: others =>
      match first.result, others with
      | .error fault, _ => .error (fault.report text)
      | .ok d, [] => .ok d
      | .ok _, next :: _ => .error (leftover text next.start.offset)

end Primer
