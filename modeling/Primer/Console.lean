/-
Primer/Console.lean

The two channels that a program writes to: `out` for what it prints, `diag`
for errors and traces.  Any write to a channel may fail, and so may any flush,
whatever became of those before it: the plans of a channel say which do, and
how.  A write that fails may have got a part of its text out.  To write nothing
always succeeds, and is no attempt to write.
-/
import Primer.Outcome

namespace Primer

/-- What goes wrong with an action that is taken again and again: with each
attempt at it, counted from 0 on, something or nothing. -/
structure Plan (φ : Type) where
  /-- how many attempts there were -/
  attempts : Nat
  fault : Nat → Option φ

namespace Plan

variable {φ : Type}

/-- Nothing ever goes wrong. -/
def never : Plan φ := ⟨0, fun _ => none⟩

/-- The same goes wrong each time. -/
def always (f : φ) : Plan φ := ⟨0, fun _ => some f⟩

/-- What goes wrong with the next attempt. -/
def now (p : Plan φ) : Option φ := p.fault p.attempts

/-- One attempt later. -/
def next (p : Plan φ) : Plan φ := { p with attempts := p.attempts + 1 }

/-- Nothing will go wrong any more. -/
def Clear (p : Plan φ) : Prop := ∀ n, p.attempts ≤ n → p.fault n = none

theorem Clear.now {p : Plan φ} (h : p.Clear) : p.now = none := h _ (Nat.le_refl _)

theorem Clear.next {p : Plan φ} (h : p.Clear) : p.next.Clear :=
  fun n hn => h n (Nat.le_of_succ_le hn)

theorem never_clear : (never : Plan φ).Clear := fun _ _ => rfl

end Plan

/-- Why a write fails, and how many characters of the text get out before that. -/
structure WriteFault where
  reason : String
  taken : Nat

/-- The part of a text that gets out before a write fails.  If that is nothing, the
text is not even made. -/
def WriteFault.part (f : WriteFault) (text : Unit → String) : String :=
  match f.taken with
  | 0 => ""
  | n => String.ofList ((text ()).toList.take n)

/-- A channel: what was written, and what goes wrong with writing and with
flushing. -/
structure Channel where
  text : String
  writing : Plan WriteFault
  flushing : Plan String

namespace Channel

/-- Nothing written yet, and nothing ever fails. -/
def empty : Channel := ⟨"", .never, .never⟩

/-- Each write from now on succeeds. -/
def Open (c : Channel) : Prop := c.writing.Clear

theorem empty_open : empty.Open := Plan.never_clear

/-- The channel after an attempt to write that got this text out. -/
def wrote (c : Channel) (s : String) : Channel :=
  { c with text := c.text ++ s, writing := c.writing.next }

theorem Open.wrote {c : Channel} (h : c.Open) (s : String) : (c.wrote s).Open := Plan.Clear.next h

/-- Add text that is not empty.  The text is made only if it is needed: a value may
have a text far longer than the value itself. -/
def writeText (c : Channel) (text : Unit → String) : Outcome Channel Unit :=
  match c.writing.now with
  | none => .value () (c.wrote (text ()))
  | some f => .fault (.channel f.reason) (c.wrote (f.part text))

/-- Whether it fails or not, a write gets some text out. -/
theorem exists_state_writeText (c : Channel) (text : Unit → String) :
    ∃ s, (c.writeText text).state = c.wrote s := by
  unfold writeText
  split
  · exact ⟨_, rfl⟩
  · exact ⟨_, rfl⟩

theorem Open.writeText {c : Channel} (h : c.Open) (text : Unit → String) :
    c.writeText text = .value () (c.wrote (text ())) := by
  simp [Channel.writeText, Plan.Clear.now h]

/-- Add text. -/
def write (c : Channel) (s : String) : Outcome Channel Unit :=
  if s.isEmpty then .value () c else c.writeText fun _ => s

/-- To write nothing changes nothing, whatever goes wrong. -/
@[simp] theorem write_empty (c : Channel) : c.write "" = .value () c := rfl

/-- To make the text late makes no other difference. -/
theorem writeText_eq_write (c : Channel) (text : Unit → String) (h : (text ()).isEmpty = false) :
    c.writeText text = c.write (text ()) := by
  simp [write, h, writeText, WriteFault.part]

/-- Add text and end the line. -/
def writeLine (c : Channel) (line : Unit → String) : Outcome Channel Unit :=
  c.writeText fun _ => line () ++ "\n"

/-- Push on what was written. -/
def flush (c : Channel) : Outcome Channel Unit :=
  match c.flushing.now with
  | none => .value () { c with flushing := c.flushing.next }
  | some reason => .fault (.channel reason) { c with flushing := c.flushing.next }

theorem state_flush (c : Channel) : c.flush.state = { c with flushing := c.flushing.next } := by
  unfold flush
  split <;> rfl

end Channel

/-- The channels of a program. -/
structure Console where
  out : Channel
  diag : Channel

namespace Console

def empty : Console := ⟨.empty, .empty⟩

/-- The console with nothing written; what goes wrong stays the same. -/
def cleared (c : Console) : Console :=
  ⟨{ c.out with text := "" }, { c.diag with text := "" }⟩

end Console

end Primer
