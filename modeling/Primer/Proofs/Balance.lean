/-
Primer/Proofs/Balance.lean

The indentation of the trace in a session.

In both languages an evaluation that has ended left the indentation of the trace as
it found it.  A session starts without any, so it has none whenever it goes on to
something that was read or to a test, in a text or in a file inside it
(`Meanwhile.unindented`).

When an error is caught the indentation is put back to nothing.  That is never
needed: it is nothing already in the session in which the error is caught
(`Catches.unindented`).
-/
import Primer.Proofs.Indent
import Primer.Proofs.Nesting

namespace Primer

open Outcome

/-! ### Languages -/

/-- The evaluations and definitions of a language leave the indentation as they found
it. -/
structure Language.Balanced (L : Language) : Prop where
  eval : ∀ limits e m, Level m.indent (L.eval limits e m)
  define : ∀ limits echo d m, Level m.indent (L.define limits echo d m)

section

variable {μ α : Type} {n : Nat}

theorem Outcome.Level.leaves {o : Outcome (Machine μ) α} (h : Level n o) :
    Leaves (fun m => m.indent = n) o := by
  cases o <;> exact h

theorem Machine.level_echo (m : Machine μ) (echo : Echo) (line : Unit → String) :
    Level m.indent (m.echo echo line) := by
  cases echo with
  | off => exact rfl
  | on =>
    refine .of_state ?_
    rw [Machine.echo, printLine, state_mapState]
    rfl

end

namespace Functional

theorem level_evalGlobal (limits : Limits) (e : Exp) (m : State) :
    Level m.indent (evalGlobal limits e m) :=
  level_eval limits limits.depth (m.load e).1 .globals (m.load e).2

theorem level_bindAndEcho (echo : Echo) (name : String) (v : Value) (line : Unit → String)
    (m : State) : Level m.indent (bindAndEcho echo name v line m) :=
  ((m.defineGlobal name v).level_echo echo line).map

theorem level_define (limits : Limits) (echo : Echo) (d : Definition Exp Lambda) (m : State) :
    Level m.indent (define limits echo d m) := by
  cases d with
  | val name e =>
    refine (level_evalGlobal limits e m).andThen fun v s hs => ?_
    rw [← hs]
    exact level_bindAndEcho echo name v _ s
  | function name f =>
    rw [define]
    cases repeated? f.formals with
    | some formal => exact rfl
    | none => exact level_bindAndEcho echo name _ _ (m.loadLambda f).2
  | exp e =>
    refine (level_evalGlobal limits e m).andThen fun v s hs => ?_
    rw [← hs]
    exact level_bindAndEcho echo itName v _ s

end Functional

namespace Procedural

theorem level_evalGlobal (limits : Limits) (e : Exp) (m : State) :
    Level m.indent (evalGlobal limits e m) :=
  level_inScopes (level_eval limits limits.depth e) m .none rfl

theorem level_define (limits : Limits) (echo : Echo) (d : Definition Exp Procedure) (m : State) :
    Level m.indent (define limits echo d m) := by
  cases d with
  | val name e =>
    refine (level_evalGlobal limits e m).andThen fun n s hs => ?_
    rw [← hs]
    exact (State.defineGlobal s name n).level_echo echo _
  | function name p =>
    rw [define]
    cases repeated? p.formals with
    | some formal => exact rfl
    | none => exact (m.defineFunction name p).level_echo echo _
  | exp e =>
    refine (level_evalGlobal limits e m).andThen fun n s hs => ?_
    rw [← hs]
    exact (State.defineGlobal s itName n).level_echo echo _

end Procedural

theorem Language.balanced_functional : functional.Balanced where
  eval := Functional.level_evalGlobal
  define limits echo d m := (Functional.level_define limits echo d m).map

theorem Language.balanced_procedural : procedural.Balanced where
  eval := Procedural.level_evalGlobal
  define := Procedural.level_define

/-! ### Sessions -/

namespace Session

variable {L : Language}

/-- The trace is not indented. -/
def Unindented (s : Session L) : Prop := s.machine.indent = 0

theorem kept_unindented (hL : L.Balanced) : Kept (L := L) Unindented where
  eval s _ e _ _ hs := by
    have hlevel := hL.eval s.limits e s.machine
    rw [show s.machine.indent = 0 from hs] at hlevel
    exact hlevel.leaves
  console _ _ hs := hs
  reset _ _ := rfl
  define s d _ hs := by
    have hlevel := hL.define s.limits s.settings.echo d s.machine
    rw [show s.machine.indent = 0 from hs] at hlevel
    exact hlevel.leaves
  normal _ hs := hs

theorem keptByReading_unindented (hL : L.Balanced) :
    KeptByReading (L := L) fun m => m.indent = 0 :=
  (kept_unindented hL).keptByReading

theorem leaves_unindented (hL : L.Balanced) (disk : Disk) (file : String) (s : Session L)
    (hs : Unindented s) : Leaves Unindented (s.runFile disk file) :=
  (keptByReading_unindented hL).leaves_runFile disk file s hs

end Session

/-- The expression that a test evaluates first. -/
def UnitTest.first {ε : Type} : UnitTest ε → ε
  | .expect e _ => e
  | .assert e => e
  | .error e => e

theorem UnitTest.first_mem {ε : Type} (t : UnitTest ε) : t.first ∈ t.exps := by
  cases t <;> simp [first, exps]

namespace Session

variable {L : Language}

/-- A session in which an error is caught, after the task was begun in the session `s` and
before anything is done about the error. -/
inductive Catches (disk : Disk) (s : Session L) : Task L → Session L → Prop
  | malformed {entry : Entry} : L.form? entry = none → Catches disk s (.read entry) s
  | definition {entry : Entry} {d : Definition L.Exp L.Function} {e : Error}
      {m : Machine L.Memory} : L.form? entry = some (.definition d) →
        L.define s.limits s.settings.echo d s.machine = .fault e m →
          Catches disk s (.read entry) (s.withMachine m)
  | use {entry : Entry} {file : String} {e : Error} {s' : Session L} :
      L.form? entry = some (.use file) → s.runFile disk file = .fault e s' →
        Catches disk s (.read entry) s'
  | first {t : UnitTest L.Exp} {e : Error} {m : Machine L.Memory} :
      L.eval s.limits t.first s.machine = .fault e m → Catches disk s (.test t) (s.withMachine m)
  | second {e e' : L.Exp} {v : L.Value} {err : Error} {m m' : Machine L.Memory} :
      L.eval s.limits e s.machine = .value v m → L.eval s.limits e' m = .fault err m' →
        Catches disk s (.test (.expect e e')) (s.withMachine m')

variable {disk : Disk} {s s' : Session L} {task : Task L}

theorem Catches.unindented (hL : L.Balanced) (h : Catches disk s task s') (hs : Unindented s) :
    Unindented s' := by
  have hkept := kept_unindented hL
  cases h with
  | malformed => exact hs
  | @definition _ d _ _ _ hdefine =>
    have hleaves := hkept.define s d trivial hs
    rwa [hdefine] at hleaves
  | @use _ file _ _ _ hfile =>
    have hleaves := leaves_unindented hL disk file s hs
    rwa [hfile] at hleaves
  | @first t _ _ heval =>
    have hleaves := hkept.eval s t t.first trivial t.first_mem hs
    rwa [heval] at hleaves
  | @second e e' _ _ m m' heval heval' =>
    have hleaves := hkept.eval s (.expect e e') e trivial (by simp [UnitTest.exps]) hs
    rw [heval] at hleaves
    have hleaves' := hkept.eval (s.withMachine m) (.expect e e') e' trivial
      (by simp [UnitTest.exps]) hleaves
    have hrun : L.eval (s.withMachine m).limits e' (s.withMachine m).machine = .fault _ m' :=
      heval'
    rwa [hrun] at hleaves'

/-- The sessions that a fresh one becomes by running texts and files, one after the other.
In between, something else may be printed. -/
inductive Lived : Session L → Prop
  | fresh (console : Console) (limits : Limits) (settings : Settings) :
      Lived (.initial L console limits settings)
  | source {s s' : Session L} {disk : Disk} {source text : String} {summary : Summary} :
      Lived s → s.runSource disk source text = .value summary s' → Lived s'
  | file {s s' : Session L} {disk : Disk} {path : String} {summary : Summary} :
      Lived s → s.runFile disk path = .value summary s' → Lived s'
  | refused {s s' : Session L} {disk : Disk} {path : String} {e : Error} :
      Lived s → s.runFile disk path = .fault e s' → Lived s'
  | printed {s : Session L} (console : Console) : Lived s → Lived (s.withConsole console)

/-- What a new machine has and reading keeps, the machine has all along. -/
theorem Lived.machine {Q : Machine L.Memory → Prop} (hQ : KeptByReading Q)
    (hinitial : ∀ console, Q ⟨L.initial, console, 0⟩) (h : Lived s) : Q s.machine := by
  induction h with
  | fresh console limits settings => exact hinitial console
  | source _ hrun ih => exact (hQ.settles_runSource _ _ _ ih).of_value hrun
  | @file s _ disk path _ _ hrun ih =>
    have hleaves := hQ.leaves_runFile disk path s ih
    rwa [hrun] at hleaves
  | @refused s _ disk path _ _ hrun ih =>
    have hleaves := hQ.leaves_runFile disk path s ih
    rwa [hrun] at hleaves
  | printed console _ ih => exact hQ.console _ console ih

theorem Lived.unindented (hL : L.Balanced) (h : Lived s) : Unindented s :=
  h.machine (keptByReading_unindented hL) fun _ => rfl

/-- What a session comes to in the course of a text or a file, which it begins in `s`. -/
inductive Meanwhile (disk : Disk) (s : Session L) : Task L → Session L → Prop
  | source {source text : String} {docs : List Document} {task : Task L} {s' : Session L} :
      Passes disk source text s docs task s' → Meanwhile disk s task s'
  | file {path : String} {doc : Document} {docs : List Document} {task : Task L}
      {s' : Session L} : disk.open? path = some doc → doc.identity ∉ s.active →
        Passes disk path doc.text (s.entering doc) docs task s' → Meanwhile disk s task s'

theorem Meanwhile.machine {Q : Machine L.Memory → Prop} (hQ : KeptByReading Q)
    (h : Meanwhile disk s task s') (hs : Q s.machine) : Q s'.machine := by
  cases h with
  | source hpasses => exact hpasses.machine hQ hs
  | file _ _ hpasses => exact hpasses.machine hQ hs

theorem Meanwhile.reads (h : Meanwhile disk s task s') : ∀ form ∈ task.form?, L.Reads form := by
  cases h with
  | source hpasses => exact hpasses.reads
  | file _ _ hpasses => exact hpasses.reads

theorem Meanwhile.unindented (hL : L.Balanced) (h : Meanwhile disk s task s')
    (hs : Unindented s) : Unindented s' :=
  h.machine (keptByReading_unindented hL) hs

/-- **The nesting of the trace is balanced.**  In both languages an evaluation that ends,
from any state and in any environment, in a value or in an error, leaves the indentation
as it found it.  Hence, in the life of a session that was started fresh, the trace is not
indented whenever the session goes on to a form or a test, nor when an error of this form or
test is caught, before the indentation is put back.  Forms and tests of a file are among
these, for a file is run as a text. -/
theorem trace_nesting_is_balanced :
    (∀ limits left e env (m : Functional.State),
      Level m.indent (Functional.eval limits left e env m)) ∧
    (∀ limits left e (m : Procedural.State),
      Level m.indent (Procedural.eval limits left e m)) ∧
    ∀ L, (L = .functional ∨ L = .procedural) →
      (∀ disk path (t : Session L), t.runFile disk path = t.runFileText disk path) ∧
      ∀ (s : Session L), Lived s →
        s.machine.indent = 0 ∧ ∀ disk task s', Meanwhile disk s task s' →
          s'.machine.indent = 0 ∧ ∀ s'', Catches disk s' task s'' → s''.machine.indent = 0 := by
  refine ⟨Functional.level_eval, Procedural.level_eval, fun L hlanguage => ?_⟩
  refine ⟨runFile_eq, fun s hs => ?_⟩
  have hL : L.Balanced := by
    rcases hlanguage with rfl | rfl
    · exact Language.balanced_functional
    · exact Language.balanced_procedural
  refine ⟨hs.unindented hL, fun disk task s' hmeanwhile => ?_⟩
  have hs' : Unindented s' := hmeanwhile.unindented hL (hs.unindented hL)
  exact ⟨hs', fun s'' hcatches => hcatches.unindented hL hs'⟩

/-- A call under the trace whose closing line cannot be written, after its opening line was
written and it had come to its value. -/
theorem trace_nesting_is_balanced_failed_closing :
    let diag : Channel := ⟨"", ⟨0, fun n => if n = 1 then some ⟨"full", 3⟩ else none⟩, .never⟩
    let s := Session.initial .functional ⟨.empty, diag⟩ ⟨9, 9⟩ ⟨.off, .shown⟩
    ∃ entry s' s'', Meanwhile .empty s (.read entry) s' ∧ Catches .empty s' (.read entry) s'' ∧
      s''.machine.console.diag.text = "(+ 1 2) => ...\n(+ " ∧
      s'.machine.indent = 0 ∧ s''.machine.indent = 0 := by
  intro diag s
  let one : Number := ⟨1, by decide, by decide⟩
  let two : Number := ⟨2, by decide, by decide⟩
  let val : Entry := ⟨⟨"u", 1⟩, .ok (.list [.symbol "val", .symbol "&trace",
    .number ⟨9, by decide, by decide⟩])⟩
  let sum : Entry := ⟨⟨"u", 1⟩, .ok (.list [.symbol "+", .number one, .number two])⟩
  let d : Definition Functional.Exp Functional.Lambda :=
    .exp (.apply (.var "+") [.literal (.number one), .literal (.number two)])
  let s' := (runEntries (runFile .empty) [val] .zero s).state
  let m := (Language.functional.define s'.limits s'.settings.echo d s'.machine).state
  have hread : readAll "u" "(val &trace 9) (+ 1 2)" = [val, sum] := rfl
  have hpasses : Passes .empty "u" "(val &trace 9) (+ 1 2)" s [] (.read sum) s' :=
    .here (@ComesTo.read _ _ _ _ _ [val] [] sum _ _ hread rfl)
  have hcatches : Catches .empty s' (.read sum) (s'.withMachine m) := .definition (d := d) rfl rfl
  obtain ⟨hs', hcaught⟩ := ((trace_nesting_is_balanced.2.2 _ (.inl rfl)).2 s (.fresh _ _ _)).2
    _ _ _ (.source hpasses)
  exact ⟨sum, s', s'.withMachine m, .source hpasses, hcatches, by decide +kernel, hs',
    hcaught _ hcatches⟩

end Session

end Primer
