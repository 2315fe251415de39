/-
Primer/Proofs/Journal.lean

Machines that keep a journal.

What happens in the course of a computation cannot be read off the state in
which it ends.  A machine with a journal notes it down: beside its memory it has
a list of events, the last one first.  Without the journal it is a machine as
any other (`Machine.plain`), and what is proved of a journal is proved of the
computation without it as long as the two can be shown to go together.
-/
import Primer.Machine
import Primer.Proofs.Lockstep

namespace Primer

open Outcome

/-- A memory and what has happened so far, the last event first. -/
structure Journaled (μ ε : Type) where
  memory : μ
  journal : List ε

namespace Machine

variable {μ ε α : Type}

/-- A machine with nothing in its journal. -/
def journaled (m : Machine μ) : Machine (Journaled μ ε) := ⟨⟨m.memory, []⟩, m.console, m.indent⟩

/-- The machine without its journal. -/
def plain (r : Machine (Journaled μ ε)) : Machine μ := ⟨r.memory.memory, r.console, r.indent⟩

def journal (r : Machine (Journaled μ ε)) : List ε := r.memory.journal

/-- Note an event. -/
def note (r : Machine (Journaled μ ε)) (event : ε) : Machine (Journaled μ ε) :=
  { r with memory := ⟨r.memory.memory, event :: r.memory.journal⟩ }

/-- Another machine, with the journal of this one. -/
def withPlain (r : Machine (Journaled μ ε)) (m : Machine μ) : Machine (Journaled μ ε) :=
  ⟨⟨m.memory, r.memory.journal⟩, m.console, m.indent⟩

/-- Run something that notes nothing. -/
def unnoted (r : Machine (Journaled μ ε)) (run : Machine μ → Outcome (Machine μ) α) :
    Outcome (Machine (Journaled μ ε)) α :=
  (run r.plain).mapState r.withPlain

@[simp] theorem plain_note (r : Machine (Journaled μ ε)) (event : ε) :
    (r.note event).plain = r.plain := rfl

/-- To print a line changes nothing but the console, and notes nothing. -/
theorem match_echo {W : Type} [Preorder W] {w : W}
    {S : W → Machine (Journaled μ ε) → Machine μ → Prop} {r : Machine (Journaled μ ε)}
    {m : Machine μ}
    (h : ∀ console, S w (r.withPlain { m with console := console }) { m with console := console })
    (echo : Echo) (line : Unit → String) :
    Match S (fun _ => Eq) w ((m.echo echo line).mapState r.withPlain) (m.echo echo line) := by
  cases echo with
  | off => exact .value le_rfl (h m.console) rfl
  | on =>
    simp only [Machine.echo, printLine]
    cases m.console.out.writeLine line with
    | value _ out => exact .value le_rfl (h { m.console with out := out }) rfl
    | fault e out => exact .fault le_rfl (h { m.console with out := out })
    | unfinished out => exact .unfinished le_rfl (h { m.console with out := out })

end Machine

end Primer
