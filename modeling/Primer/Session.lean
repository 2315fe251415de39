/-
Primer/Session.lean

A session runs units of source text.  The forms of a unit are taken in order.
A definition takes effect at once; `use` runs a file as a unit of its own; a
unit test is kept, and the tests run after the last form, so that they see all
definitions of the unit wherever they stand.  An error ends only the form that
raised it: it is reported and the session goes on with the next form.

A file that is being run must not be used again from within.  Files in progress
are therefore pairwise different, and as there are finitely many files the
nesting of `use` is bounded by their number (`Session.nesting`).
-/
import Primer.Disk
import Primer.Language
import Primer.Reader
import Primer.Report

namespace Primer

structure Settings where
  echo : Echo := .on
  locations : LocationStyle := .shown
deriving DecidableEq

/-- Counts from running a unit, with the units that it uses. -/
structure Summary where
  /-- errors reported at top level -/
  errors : Nat
  testsRun : Nat
  testsPassed : Nat
deriving DecidableEq

namespace Summary

def zero : Summary := ⟨0, 0, 0⟩

/-- The counts of both. -/
def add (a b : Summary) : Summary :=
  ⟨a.errors + b.errors, a.testsRun + b.testsRun, a.testsPassed + b.testsPassed⟩

end Summary

/-- The line that is printed after the tests of a unit. -/
def testReport (passed total : Nat) : String :=
  match passed, total with
  | 1, 1 => "The only test passed."
  | 0, 1 => "The only test failed."
  | 2, 2 => "Both tests passed."
  | 0, 2 => "Both tests failed."
  | p, n =>
      if p = n then "All " ++ toString n ++ " tests passed."
      else toString p ++ " of " ++ toString n ++ " tests passed."

/-- An interpreter with its settings and the files that are being run. -/
structure Session (L : Language) where
  machine : Machine L.Memory
  limits : Limits
  settings : Settings
  mode : CatchMode
  /-- the identities of the files in progress, outermost first -/
  active : List String

namespace Session

variable {L : Language}

/-- A session with nothing defined but the primitives. -/
def initial (L : Language) (console : Console) (limits : Limits) (settings : Settings) :
    Session L :=
  ⟨⟨L.initial, console, 0⟩, limits, settings, .normal, []⟩

@[inline] def withMachine (s : Session L) (m : Machine L.Memory) : Session L :=
  { s with machine := m }

@[inline] def withConsole (s : Session L) (c : Console) : Session L :=
  { s with machine := { s.machine with console := c } }

/-- Catch an error: report it as the mode asks, and count it if it is not the
outcome of a test.  That the report itself fails is passed over. -/
def recover (s : Session L) (e : Error) (summary : Summary) : Summary × Session L :=
  let reported := s.machine.console.report s.mode s.settings.locations e
  let counted := if s.mode = .normal then { summary with errors := summary.errors + 1 } else summary
  (counted, s.withMachine { s.machine with console := reported.state, indent := 0 })

/-! ### Unit tests -/

/-- How a test came out. -/
inductive Verdict where
  | passed
  | failed (message : String)

/-- Evaluate an expression of a test; an error is caught and leaves no value. -/
def tryEval (s : Session L) (e : L.Exp) (summary : Summary) :
    Outcome (Session L) (Option L.Value × Summary) :=
  match L.eval s.limits e s.machine with
  | .value v m => .value (some v, summary) (s.withMachine m)
  | .fault err m =>
      let (summary, s) := (s.withMachine m).recover err summary
      .value (none, summary) s
  | .unfinished m => .unfinished (s.withMachine m)

/-- Run a test. -/
def runTest (s : Session L) (t : UnitTest L.Exp) (summary : Summary) :
    Outcome (Session L) (Verdict × Summary) :=
  match t with
  | .expect e e' =>
      let wanted := "Check-expect failed: expected " ++ L.expText e ++ " to evaluate to "
      let same := wanted ++ "the same value as " ++ L.expText e' ++ ", but evaluating "
      (s.tryEval e summary).andThen fun (v, summary) s =>
        match v with
        | none => .value (.failed (same ++ L.expText e ++ " causes an error."), summary) s
        | some v =>
            (s.tryEval e' summary).andThen fun (v', summary) s =>
              match v' with
              | none => .value (.failed (same ++ L.expText e' ++ " causes an error."), summary) s
              | some v' =>
                  if L.equal v v' then .value (.passed, summary) s
                  else .value (.failed (wanted ++ L.valueText v' ++ ", but it's " ++
                    L.valueText v ++ "."), summary) s
  | .assert e =>
      (s.tryEval e summary).andThen fun (v, summary) s =>
        match v with
        | none =>
            .value (.failed ("Check-assert failed: evaluating " ++ L.expText e ++
              " causes an error."), summary) s
        | some v =>
            if L.isTrue v then .value (.passed, summary) s
            else .value (.failed ("Check-assert failed: " ++ L.expText e ++ " evaluated to " ++
              L.valueText v ++ "."), summary) s
  | .error e =>
      (s.tryEval e summary).andThen fun (v, summary) s =>
        match v with
        | none => .value (.passed, summary) s
        | some v =>
            .value (.failed ("Check-error failed: evaluating " ++ L.expText e ++
              " was expected to produce an error, but instead it produced the value " ++
              L.valueText v ++ "."), summary) s

/-- Write why a test failed.  That the writing fails is passed over. -/
def noteFailure (s : Session L) (message : String) : Session L :=
  s.withConsole (s.machine.console.note message).state

/-- Run tests in order and count those that pass, on top of `passed`. -/
def countPassed (passed : Nat) (summary : Summary) :
    List (UnitTest L.Exp) → Session L → Outcome (Session L) (Nat × Summary)
  | [], s => .value (passed, summary) s
  | t :: ts, s =>
      (s.runTest t summary).andThen fun (verdict, summary) s =>
        match verdict with
        | .passed => countPassed (passed + 1) summary ts s
        | .failed message => countPassed passed summary ts (s.noteFailure message)

/-- Write the line that sums up the tests.  That the writing fails is passed
over. -/
def noteTests (s : Session L) (passed total : Nat) : Session L :=
  s.withMachine (s.machine.printLine fun _ => testReport passed total).state

/-- Run the tests of a unit and sum them up. -/
def runTests (tests : List (UnitTest L.Exp)) (summary : Summary) (s : Session L) :
    Outcome (Session L) Summary :=
  if tests.isEmpty then .value summary s
  else
    (countPassed 0 summary tests { s with mode := .testing }).andThen fun (passed, summary) s =>
      let s := { s with mode := .normal }
      .value (summary.add ⟨0, tests.length, passed⟩) (s.noteTests passed tests.length)

/-! ### Units -/

/-- What has come of the forms of a unit so far: the counts, and the tests that
are still to run, last first. -/
structure Tally (L : Language) where
  summary : Summary
  tests : List (UnitTest L.Exp)

/-- Catch an error while the forms of a unit are run. -/
def recoverIn (s : Session L) (e : Error) (tally : Tally L) : Outcome (Session L) (Tally L) :=
  let (summary, s) := s.recover e tally.summary
  .value { tally with summary := summary } s

/-- Run one form.  `useFile` runs a file. -/
def runForm (useFile : String → Session L → Outcome (Session L) Summary)
    (form : Form L.Exp L.Function) (tally : Tally L) (s : Session L) :
    Outcome (Session L) (Tally L) :=
  match form with
  | .definition d =>
      match L.define s.limits s.settings.echo d s.machine with
      | .value _ m => .value tally (s.withMachine m)
      | .fault e m => (s.withMachine m).recoverIn e tally
      | .unfinished m => .unfinished (s.withMachine m)
  | .use file =>
      match useFile file s with
      | .value nested s => .value { tally with summary := tally.summary.add nested } s
      | .fault e s => s.recoverIn e tally
      | .unfinished s => .unfinished s
  | .test t => .value { tally with tests := t :: tally.tests } s

/-- Run what was read at one place of a source. -/
def runEntry (useFile : String → Session L → Outcome (Session L) Summary) (entry : Entry)
    (tally : Tally L) (s : Session L) : Outcome (Session L) (Tally L) :=
  match entry.result with
  | .error e => s.recoverIn (.malformed e) tally
  | .ok d =>
      match L.recognise d with
      | .error e => s.recoverIn (.malformed (e.locate entry.location)) tally
      | .ok form => runForm useFile form tally s

/-- Run what was read, in order. -/
def runEntries (useFile : String → Session L → Outcome (Session L) Summary) :
    List Entry → Tally L → Session L → Outcome (Session L) (Tally L)
  | [], tally, s => .value tally s
  | entry :: entries, tally, s =>
      (runEntry useFile entry tally s).andThen fun tally s => runEntries useFile entries tally s

/-- Run a unit: its forms, then its tests. -/
def runUnit (useFile : String → Session L → Outcome (Session L) Summary)
    (source input : String) (s : Session L) : Outcome (Session L) Summary :=
  (runEntries useFile (readAll source input) ⟨.zero, []⟩ s).andThen fun tally s =>
    runTests tally.tests.reverse tally.summary s

/-- Run a file as a unit, with files nested at most so deeply. -/
def runFileWithin (disk : Disk) : Nat → String → Session L → Outcome (Session L) Summary
  | 0, _, s => .unfinished s
  | nesting + 1, path, s =>
      match disk.open? path with
      | none => .fault (.failure ("cannot open file \"" ++ path ++ "\"")) s
      | some doc =>
          if s.active.contains doc.identity then
            .fault (.failure ("use of file \"" ++ path ++ "\" is circular")) s
          else
            (runUnit (runFileWithin disk nesting) path doc.text
              { s with active := s.active ++ [doc.identity] }).mapState fun s =>
                { s with active := s.active.dropLast }

/-- How deeply files can be nested at most: each of them once, and then one
that is found to be in progress already. -/
def nesting (disk : Disk) : Nat := disk.documents.length + 1

/-- Run a file as a unit. -/
def runFile (disk : Disk) (path : String) (s : Session L) : Outcome (Session L) Summary :=
  runFileWithin disk (nesting disk) path s

/-- Run a text as a unit. -/
def runSource (disk : Disk) (source input : String) (s : Session L) :
    Outcome (Session L) Summary :=
  runUnit (runFile disk) source input s

/-! ### Description -/

/-- A description of the whole session. -/
def describe (s : Session L) : String :=
  let echo := match s.settings.echo with
    | .on => "On"
    | .off => "Off"
  let format := match s.settings.locations with
    | .shown => "WithLocations"
    | .hidden => "WithoutLocations"
  let mode := match s.mode with
    | .normal => "Normal"
    | .testing => "Testing"
  "Session \x7b lang: " ++ L.describe s.limits s.machine.memory ++
    ", config: SessionConfig \x7b echo: " ++ echo ++ ", error_format: " ++ format ++
    " \x7d, mode: " ++ mode ++ ", active_files: [" ++
    ", ".intercalate (s.active.map Text.quoted) ++ "] \x7d"

end Session

end Primer
