/-
Primer/Proofs/Bookkeeping.lean

What a session counts.

The counts of a unit are kept in several places.  An error is counted where it is
caught, but not while tests are run; the counts of a file are added to those of
the unit that uses it; tests are counted when they have been run.  Here they
are compared with an account of the run that does not count at all: `Course` goes
through what was read and tells what came of each thing, its `Fate`.

The session is in normal mode whenever it goes on to the next thing that was
read, in the unit itself and in every file inside it (`Passes.mode`).  This is
what the counts depend on: in another mode errors would be passed over.  Tests are
run in such a mode, so what is counted is the same after a test as before it
(`counted_of_runTest`).
-/
import Mathlib.Algebra.Ring.Nat
import Primer.Proofs.Nesting

namespace Primer

theorem Outcome.exists_of_value? {σ α : Type} {o : Outcome σ α} {a : α} (h : o.value? = some a) :
    ∃ s, o = .value a s := by
  cases o with
  | value b s =>
    cases h
    exact ⟨s, rfl⟩
  | fault e s => cases h
  | unfinished s => cases h

theorem Outcome.exists_of_mapState_eq_value {σ τ α : Type} {f : σ → τ} {o : Outcome σ α} {a : α}
    {t : τ} (h : o.mapState f = .value a t) : ∃ s, o = .value a s := by
  cases o with
  | value b s =>
    cases h
    exact ⟨s, rfl⟩
  | fault e s => cases h
  | unfinished s => cases h

open Outcome

namespace Session

variable {L : Language}

/-! ### The mode -/

/-- Errors are caught at top level. -/
def Normal (s : Session L) : Prop := s.mode = .normal

theorem kept_normal : Kept (L := L) Normal := .of_machine (fun _ _ h => h) fun _ _ => rfl

theorem leaves_normal (disk : Disk) (file : String) (s : Session L) (hs : Normal s) :
    Leaves Normal (s.runFile disk file) :=
  kept_normal.leaves_runFileWithin (fun _ _ => trivial) (fun _ _ h => h) disk _ file hs

variable {disk : Disk} {source text : String} {s s' : Session L} {task : Task L}
  {docs : List Document}

theorem ComesTo.mode {entry : Entry} (h : ComesTo disk source text s (.read entry) s')
    (hs : Normal s) : Normal s' := by
  cases h with
  | read _ hbefore =>
    exact (kept_normal.settles_runEntries (leaves_normal disk) _ (fun _ _ _ _ => trivial) _
      hs).of_value hbefore

/-- Whatever is read in the course of a unit, it is in normal mode. -/
theorem Passes.mode (h : Passes disk source text s docs task s') (hs : Normal s) {entry : Entry}
    (htask : task = .read entry) : Normal s' := by
  induction h with
  | here hcomes =>
    subst htask
    exact hcomes.mode hs
  | inside hcomes _ _ _ _ ih => exact ih (hcomes.mode hs) htask

/-! ### What comes of the things that are read -/

/-- What came of a thing that was read. -/
inductive Fate (L : Language) where
  /-- it was no datum -/
  | unread (e : SyntaxError)
  /-- it was a datum but no form -/
  | unrecognised (e : SyntaxError)
  /-- a definition or an expression that had its effect -/
  | done
  /-- a definition or an expression that ended in an error -/
  | failed (e : Error)
  /-- a file that was run, with what was counted there -/
  | used (nested : Summary)
  /-- a file that was not run -/
  | refused (e : Error)
  /-- a test, which waits -/
  | kept (t : UnitTest L.Exp)

namespace Fate

def isFailure : Fate L → Bool
  | unread _ => true
  | unrecognised _ => true
  | failed _ => true
  | refused _ => true
  | _ => false

/-- The counts of the file that was run. -/
def nested? : Fate L → Option Summary
  | used nested => some nested
  | _ => none

end Fate

/-- A session after an error was caught and reported. -/
def reporting (s : Session L) (e : Error) : Session L := (s.recover e .zero).2

/-- What comes of a thing that was read in the session `s`, and the session afterwards. -/
inductive Meets (disk : Disk) (entry : Entry) (s : Session L) : Fate L → Session L → Prop
  | unread {e : SyntaxError} : entry.result = .error e →
      Meets disk entry s (.unread e) (s.reporting (.malformed e))
  | unrecognised {d : Datum} {e : SyntaxError} : entry.result = .ok d →
      L.recognise d = .error e →
      Meets disk entry s (.unrecognised e) (s.reporting (.malformed (e.locate entry.location)))
  | done {d : Definition L.Exp L.Function} {m : Machine L.Memory} :
      L.form? entry = some (.definition d) →
      L.define s.limits s.settings.echo d s.machine = .value () m →
      Meets disk entry s .done (s.withMachine m)
  | failed {d : Definition L.Exp L.Function} {e : Error} {m : Machine L.Memory} :
      L.form? entry = some (.definition d) →
      L.define s.limits s.settings.echo d s.machine = .fault e m →
      Meets disk entry s (.failed e) ((s.withMachine m).reporting e)
  | used {file : String} {nested : Summary} {s' : Session L} :
      L.form? entry = some (.use file) → s.runFile disk file = .value nested s' →
      Meets disk entry s (.used nested) s'
  | refused {file : String} {e : Error} {s' : Session L} :
      L.form? entry = some (.use file) → s.runFile disk file = .fault e s' →
      Meets disk entry s (.refused e) (s'.reporting e)
  | kept {t : UnitTest L.Exp} : L.form? entry = some (.test t) → Meets disk entry s (.kept t) s

/-- What comes of all that was read, one thing after the other. -/
inductive Course (disk : Disk) : List Entry → Session L → List (Fate L) → Session L → Prop
  | nil {s : Session L} : Course disk [] s [] s
  | cons {entry : Entry} {entries : List Entry} {fate : Fate L} {fates : List (Fate L)}
      {s s₁ s' : Session L} : Meets disk entry s fate s₁ → Course disk entries s₁ fates s' →
      Course disk (entry :: entries) s (fate :: fates) s'

theorem Course.length_eq {entries : List Entry} {fates : List (Fate L)}
    (h : Course disk entries s fates s') : fates.length = entries.length := by
  induction h with
  | nil => rfl
  | cons _ _ ih => simp [ih]

/-! ### The counts -/

/-- What is to be counted for things that came out like this. -/
def counts (fates : List (Fate L)) : Summary :=
  let nested := fates.filterMap Fate.nested?
  ⟨fates.countP Fate.isFailure + (nested.map Summary.errors).sum,
    (nested.map Summary.testsRun).sum, (nested.map Summary.testsPassed).sum⟩

theorem counts_append (fates more : List (Fate L)) :
    counts (fates ++ more) = (counts fates).add (counts more) := by
  simp [counts, Summary.add]
  omega

theorem recoverIn_eq (hs : Normal s) (e : Error) (tally : Tally L) :
    s.recoverIn e tally
      = .value ⟨tally.summary.add ⟨1, 0, 0⟩, tally.tests⟩ (s.reporting e) := by
  rw [Normal] at hs
  simp [recoverIn, recover, reporting, hs, Summary.add]

/-- In normal mode a thing that was read is counted as what came of it. -/
theorem meets_of_runEntry (hs : Normal s) {entry : Entry} {tally tally' : Tally L}
    (h : runEntry (runFile disk) entry tally s = .value tally' s') :
    ∃ fate, Meets disk entry s fate s' ∧ tally'.summary = tally.summary.add (counts [fate]) := by
  unfold runEntry at h
  cases hresult : entry.result with
  | error e =>
    rw [hresult] at h
    dsimp only at h
    rw [recoverIn_eq hs] at h
    cases h
    exact ⟨.unread e, .unread hresult, rfl⟩
  | ok d =>
    rw [hresult] at h
    dsimp only at h
    cases hd : L.recognise d with
    | error e =>
      rw [hd] at h
      dsimp only at h
      rw [recoverIn_eq hs] at h
      cases h
      exact ⟨.unrecognised e, .unrecognised hresult hd, rfl⟩
    | ok form =>
      rw [hd] at h
      dsimp only at h
      have hform : L.form? entry = some form := by
        simp [Language.form?, hresult, hd, Except.toOption]
      cases form with
      | definition d =>
        simp only [runForm] at h
        cases hdefine : L.define s.limits s.settings.echo d s.machine with
        | value u m =>
          rw [hdefine] at h
          cases h
          exact ⟨.done, .done hform hdefine, rfl⟩
        | fault e m =>
          have hm : Normal (s.withMachine m) := hs
          rw [hdefine] at h
          dsimp only at h
          rw [recoverIn_eq hm] at h
          cases h
          exact ⟨.failed e, .failed hform hdefine, rfl⟩
        | unfinished m =>
          rw [hdefine] at h
          cases h
      | use file =>
        have hleaves := leaves_normal disk file s hs
        simp only [runForm] at h
        cases huse : s.runFile disk file with
        | value nested t =>
          rw [huse] at h
          cases h
          refine ⟨.used nested, .used hform huse, ?_⟩
          simp [counts, Fate.isFailure, Fate.nested?]
        | fault e t =>
          -- the refusal is counted, since the files inside have left the mode normal
          rw [huse] at h hleaves
          dsimp only at h
          rw [recoverIn_eq hleaves] at h
          cases h
          exact ⟨.refused e, .refused hform huse, rfl⟩
        | unfinished t =>
          rw [huse] at h
          cases h
      | test t =>
        -- nothing is counted before the test is run
        cases h
        exact ⟨.kept t, .kept hform, rfl⟩

/-- And so for all that was read. -/
theorem course_of_runEntries (hs : Normal s) {entries : List Entry} {tally tally' : Tally L}
    (h : runEntries (runFile disk) entries tally s = .value tally' s') :
    ∃ fates, Course disk entries s fates s' ∧
      tally'.summary = tally.summary.add (counts fates) := by
  induction entries generalizing tally s with
  | nil =>
    cases h
    exact ⟨[], .nil, rfl⟩
  | cons entry entries ih =>
    obtain ⟨tally₁, s₁, h₁, h₂⟩ := andThen_eq_value_iff.1 h
    have hs₁ : Normal s₁ := (kept_normal.settles_runEntry (leaves_normal disk) entry
      (fun _ _ => trivial) tally hs).of_value h₁
    obtain ⟨fate, hmeets, hcount₁⟩ := meets_of_runEntry hs h₁
    obtain ⟨fates, hcourse, hcount₂⟩ := ih hs₁ h₂
    refine ⟨fate :: fates, .cons hmeets hcourse, ?_⟩
    rw [hcount₂, hcount₁, Summary.add_assoc, ← counts_append, List.singleton_append]

/-! ### Tests -/

/-- An error that is caught while tests run is not counted. -/
theorem counted_of_tryEval (hs : s.mode = .testing) {e : L.Exp} {summary : Summary}
    {r : Option L.Value × Summary} (h : s.tryEval e summary = .value r s') :
    r.2 = summary ∧ s'.mode = .testing := by
  unfold tryEval at h
  cases heval : L.eval s.limits e s.machine with
  | value v m =>
    rw [heval] at h
    cases h
    exact ⟨rfl, hs⟩
  | fault err m =>
    have hcount : ((s.withMachine m).recover err summary).1 = summary :=
      if_neg (by simp [withMachine, hs])
    rw [heval] at h
    cases h
    exact ⟨hcount, hs⟩
  | unfinished m =>
    rw [heval] at h
    cases h

theorem counted_of_runTest (hs : s.mode = .testing) {t : UnitTest L.Exp} {summary : Summary}
    {r : Verdict × Summary} (h : s.runTest t summary = .value r s') :
    r.2 = summary ∧ s'.mode = .testing := by
  cases t with
  | expect e e' =>
    obtain ⟨⟨v, counted⟩, s₁, hfirst, hrest⟩ := andThen_eq_value_iff.1 h
    obtain ⟨rfl, hs₁⟩ := counted_of_tryEval hs hfirst
    cases v with
    | none =>
      cases hrest
      exact ⟨rfl, hs₁⟩
    | some v =>
      obtain ⟨⟨v', counted'⟩, s₂, hsecond, hend⟩ := andThen_eq_value_iff.1 hrest
      obtain ⟨rfl, hs₂⟩ := counted_of_tryEval hs₁ hsecond
      cases v' with
      | none =>
        cases hend
        exact ⟨rfl, hs₂⟩
      | some v' =>
        dsimp only at hend
        split at hend <;> cases hend <;> exact ⟨rfl, hs₂⟩
  | assert e =>
    obtain ⟨⟨v, counted⟩, s₁, hfirst, hrest⟩ := andThen_eq_value_iff.1 h
    obtain ⟨rfl, hs₁⟩ := counted_of_tryEval hs hfirst
    cases v with
    | none =>
      cases hrest
      exact ⟨rfl, hs₁⟩
    | some v =>
      dsimp only at hrest
      split at hrest <;> cases hrest <;> exact ⟨rfl, hs₁⟩
  | error e =>
    obtain ⟨⟨v, counted⟩, s₁, hfirst, hrest⟩ := andThen_eq_value_iff.1 h
    obtain ⟨rfl, hs₁⟩ := counted_of_tryEval hs hfirst
    cases v <;> cases hrest <;> exact ⟨rfl, hs₁⟩

/-- After tests no more have passed than there were, and nothing else was counted. -/
theorem counted_of_countPassed (hs : s.mode = .testing) {tests : List (UnitTest L.Exp)}
    {passed : Nat} {summary : Summary} {counts : Nat × Summary}
    (h : countPassed passed summary tests s = .value counts s') :
    counts.1 ≤ passed + tests.length ∧ counts.2 = summary ∧ s'.mode = .testing := by
  induction tests generalizing passed s with
  | nil =>
    cases h
    exact ⟨Nat.le_refl _, rfl, hs⟩
  | cons t ts ih =>
    obtain ⟨⟨verdict, counted⟩, s₁, htest, hrest⟩ := andThen_eq_value_iff.1 h
    obtain ⟨rfl, hs₁⟩ := counted_of_runTest hs htest
    simp only [List.length_cons]
    cases verdict with
    | passed =>
      obtain ⟨hle, hcounted⟩ := ih hs₁ hrest
      exact ⟨by omega, hcounted⟩
    | failed message =>
      obtain ⟨hle, hcounted⟩ := ih (s := s₁.noteFailure message) hs₁ hrest
      exact ⟨by omega, hcounted⟩

theorem Passes.testing {t : UnitTest L.Exp} (h : Passes disk source text s docs task s')
    (htask : task = .test t) : s'.mode = .testing := by
  induction h with
  | here hcomes =>
    subst htask
    cases hcomes with
    | test _ _ hbefore => exact (counted_of_countPassed rfl hbefore).2.2
  | inside _ _ _ _ _ ih => exact ih htask

/-- No more tests passed than were run. -/
def Credible (summary : Summary) : Prop := summary.testsPassed ≤ summary.testsRun

theorem counts_of_runTests {tests : List (UnitTest L.Exp)} {summary summary' : Summary}
    (h : runTests tests summary s = .value summary' s') :
    ∃ passed ≤ tests.length, summary' = summary.add ⟨0, tests.length, passed⟩ := by
  simp only [runTests] at h
  split at h
  · rename_i hempty
    cases h
    exact ⟨0, Nat.zero_le _, by simp [List.isEmpty_iff.1 hempty, Summary.add]⟩
  · obtain ⟨⟨passed, counted⟩, s₁, hpassed, hrest⟩ := andThen_eq_value_iff.1 h
    obtain ⟨hle, rfl, -⟩ := counted_of_countPassed rfl hpassed
    cases hrest
    exact ⟨passed, by simpa using hle, rfl⟩

variable {useFile : String → Session L → Outcome (Session L) Summary}

theorem credible_recoverIn {e : Error} {tally tally' : Tally L} (htally : Credible tally.summary)
    (h : s.recoverIn e tally = .value tally' s') : Credible tally'.summary := by
  cases h
  dsimp only
  split <;> exact htally

theorem credible_runEntry
    (huse : ∀ file s nested s', useFile file s = .value nested s' → Credible nested)
    {entry : Entry} {tally tally' : Tally L} (htally : Credible tally.summary)
    (h : runEntry useFile entry tally s = .value tally' s') : Credible tally'.summary := by
  simp only [runEntry] at h
  split at h
  · exact credible_recoverIn htally h
  · split at h
    · exact credible_recoverIn htally h
    · rename_i form _
      cases form with
      | definition d =>
        simp only [runForm] at h
        split at h
        · cases h
          exact htally
        · exact credible_recoverIn htally h
        · cases h
      | use file =>
        simp only [runForm] at h
        split at h
        · rename_i nested s₁ hnested
          cases h
          exact Nat.add_le_add htally (huse _ _ _ _ hnested)
        · exact credible_recoverIn htally h
        · cases h
      | test t =>
        cases h
        exact htally

theorem credible_runEntries
    (huse : ∀ file s nested s', useFile file s = .value nested s' → Credible nested)
    {entries : List Entry} {tally tally' : Tally L} (htally : Credible tally.summary)
    (h : runEntries useFile entries tally s = .value tally' s') : Credible tally'.summary := by
  induction entries generalizing tally s with
  | nil =>
    cases h
    exact htally
  | cons entry entries ih =>
    obtain ⟨tally₁, s₁, h₁, h₂⟩ := andThen_eq_value_iff.1 h
    exact ih (credible_runEntry huse htally h₁) h₂

theorem credible_runUnit
    (huse : ∀ file s nested s', useFile file s = .value nested s' → Credible nested)
    {summary : Summary} (h : runUnit useFile source text s = .value summary s') :
    Credible summary := by
  obtain ⟨tally, s₁, hentries, htests⟩ := andThen_eq_value_iff.1 h
  obtain ⟨passed, hpassed, rfl⟩ := counts_of_runTests htests
  have htally : Credible tally.summary := by
    refine credible_runEntries huse ?_ hentries
    exact Nat.le_refl 0
  exact Nat.add_le_add htally hpassed

theorem credible_runFileWithin (disk : Disk) (n : Nat) (file : String) (s : Session L)
    (nested : Summary) (s' : Session L) (h : runFileWithin disk n file s = .value nested s') :
    Credible nested := by
  induction n generalizing file s nested s' with
  | zero => cases h
  | succ n ih =>
    simp only [runFileWithin] at h
    split at h
    · cases h
    · split at h
      · cases h
      · obtain ⟨t, ht⟩ := exists_of_mapState_eq_value h
        exact credible_runUnit ih ht

/-! ### The unit as a whole -/

/-- The books are exact.  A unit that is run in normal mode and comes to its end leaves
the mode and the files in progress as they were.  Each thing that was read met its fate, those after
a failure too, and then the tests of the unit were run; what is counted are the things that
failed, the tests of the unit, and what was counted in the files that were run.  No more tests
passed than were run.

A file that is run is run as a text, by a session that differs only in the files in progress.
Whatever is read in the course of the unit, in the files inside it as well, is read in normal
mode, and so this text is run in normal mode.  Tests are run in the other mode, and
errors in them do not change what is counted. -/
theorem bookkeeping_is_exact (hmode : s.mode = .normal) {summary : Summary}
    (hrun : s.runSource disk source text = .value summary s') :
    (s'.mode = .normal ∧ s'.active = s.active) ∧
    (∃ fates s₁, Course disk (readAll source text) s fates s₁ ∧
      runTests (L.tests (readAll source text)) (counts fates) s₁ = .value summary s' ∧
      fates.length = (readAll source text).length ∧
      summary.testsRun = (L.tests (readAll source text)).length +
        ((fates.filterMap Fate.nested?).map Summary.testsRun).sum ∧
      summary.errors = fates.countP Fate.isFailure +
        ((fates.filterMap Fate.nested?).map Summary.errors).sum) ∧
    summary.testsPassed ≤ summary.testsRun ∧
    (∀ path (t : Session L), t.runFile disk path = t.runFileText disk path) ∧
    (∀ docs entry s₁, Passes disk source text s docs (.read entry) s₁ →
      s₁.mode = .normal ∧ ∀ doc, (s₁.entering doc).mode = .normal) ∧
    ∀ docs t s₁, Passes disk source text s docs (.test t) s₁ →
      s₁.mode = .testing ∧ ∀ counted verdict counted' s₂,
        s₁.runTest t counted = .value (verdict, counted') s₂ → counted' = counted := by
  have hmode' : s'.mode = .normal := (kept_normal.settles_runUnit (fun _ _ => trivial)
    (leaves_normal disk) source text hmode).of_value hrun
  have hactive : Running s.active s' := (settles_runSource disk source text s).of_value hrun
  have hpassed : Credible summary :=
    credible_runUnit (fun file s => credible_runFileWithin disk _ file s) hrun
  refine ⟨⟨hmode', hactive⟩, ?_, hpassed, runFile_eq disk, fun docs entry s₁ h => ?_,
    fun docs t s₁ h => ?_⟩
  rotate_left
  · have hs₁ : s₁.mode = .normal := h.mode hmode rfl
    exact ⟨hs₁, fun _ => hs₁⟩
  · have hs₁ := h.testing rfl
    exact ⟨hs₁, fun counted verdict counted' s₂ htest => (counted_of_runTest hs₁ htest).1⟩
  -- the account of the forms, and then of the tests that waited
  obtain ⟨tally, s₁, hentries, htests⟩ := andThen_eq_value_iff.1 hrun
  obtain ⟨fates, hcourse, hcounts⟩ := course_of_runEntries hmode hentries
  have htally : tally.tests.reverse = L.tests (readAll source text) := tests_runEntries hentries
  rw [htally, hcounts, Summary.zero_add] at htests
  obtain ⟨passed, -, hsummary⟩ := counts_of_runTests htests
  refine ⟨fates, s₁, hcourse, htests, hcourse.length_eq, ?_, ?_⟩
  · rw [hsummary]
    simp only [Summary.add, counts]
    omega
  · rw [hsummary]
    simp only [Summary.add, counts]
    omega

/-- With an output that fails at first and a channel for errors that takes nothing, a unit goes
wrong in every way there is: a form that is none, a file with a definition that cannot be echoed,
an error and a test that fails, a file that is not there, a name without a value and an unmatched
bracket.  The test waits among these and passes. -/
theorem bookkeeping_is_exact_broken_channels :
    let disk : Disk := ⟨[⟨"f", "(val x 1) (check-expect x 2) y"⟩], some⟩
    let out : Channel := ⟨"", ⟨0, fun n => if n = 0 then some ⟨"full", 1⟩ else none⟩, .never⟩
    let diag : Channel := ⟨"", .always ⟨"full", 0⟩, .never⟩
    let s := Session.initial .functional ⟨out, diag⟩ ⟨9, 9⟩ ⟨.on, .shown⟩
    let text := "(val) (use f) (use g) (check-error z) z (val w 5) )"
    s.mode = .normal ∧ ∃ s', s.runSource disk "u" text = .value ⟨6, 2, 1⟩ s' ∧
      (s'.mode = .normal ∧ s'.active = []) ∧
      (∃ fates s₁, Course disk (readAll "u" text) s fates s₁ ∧ fates.length = 7 ∧
        2 = 1 + ((fates.filterMap Fate.nested?).map Summary.testsRun).sum ∧
        6 = fates.countP Fate.isFailure +
          ((fates.filterMap Fate.nested?).map Summary.errors).sum) ∧
      1 ≤ 2 := by
  intro disk out diag s text
  have hvalue : (s.runSource disk "u" text).value? = some ⟨6, 2, 1⟩ := by decide +kernel
  obtain ⟨s', hrun⟩ := exists_of_value? hvalue
  obtain ⟨hends, ⟨fates, s₁, hcourse, -, hlength, htests, herrors⟩, hpassed, -⟩ :=
    bookkeeping_is_exact rfl hrun
  have hread : (readAll "u" text).length = 7 := by decide +kernel
  have hcount : (Language.functional.tests (readAll "u" text)).length = 1 := by decide +kernel
  rw [hread] at hlength
  rw [hcount] at htests
  exact ⟨rfl, s', hrun, hends, ⟨fates, s₁, hcourse, hlength, htests, herrors⟩, hpassed⟩

end Session

end Primer
