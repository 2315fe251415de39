/-
Primer/Proofs/Sessions.lean

Sessions that run side by side.

A session gets at the memory of its language in two ways only: it carries out
definitions and it evaluates the expressions of unit tests.  Suppose a language
is given a memory of another kind, with a way to define and a way to evaluate
that go together with the old ones (`Twin.Follows`).  Then whole sessions of
the two go together: they run the same forms in the same order, report the same
errors, count the same and write the same (`Follows.runTexts`).

That definitions and evaluations go together is asked only of what the language
accepts as a form, for nothing else ever reaches them.
-/
import Primer.Proofs.Lockstep
import Primer.Session

namespace Primer

open Outcome

/-! ### Languages with a memory of another kind -/

/-- Another memory for a language, and what defining and evaluating do with it. -/
structure Twin (L : Language) where
  Memory : Type
  define : Limits → Echo → Definition L.Exp L.Function → Machine Memory →
    Outcome (Machine Memory) Unit
  eval : Limits → L.Exp → Machine Memory → Outcome (Machine Memory) L.Value
  initial : Memory
  /-- what there is of the memory of the language itself -/
  view : Memory → L.Memory

/-- The language with the other memory. -/
abbrev Twin.language {L : Language} (T : Twin L) : Language :=
  { L with
    Memory := T.Memory
    define := T.define
    eval := T.eval
    initial := T.initial
    listing := fun memory => L.listing (T.view memory)
    describe := fun limits memory => L.describe limits (T.view memory) }

/-- A session with the other memory, in which nothing has happened yet. -/
def Twin.session {L : Language} (T : Twin L) (console : Console) (limits : Limits)
    (settings : Settings) : Session T.language :=
  .initial T.language console limits settings

/-- What there is of a session in the language itself. -/
def Twin.plain {L : Language} (T : Twin L) (s : Session T.language) : Session L :=
  ⟨⟨T.view s.machine.memory, s.machine.console, s.machine.indent⟩, s.limits, s.settings, s.mode,
    s.active⟩

/-- The forms that a language accepts. -/
def Language.Accepts (L : Language) (form : Form L.Exp L.Function) : Prop :=
  ∃ d, L.recognise d = .ok form

/-- The expressions of a unit test. -/
def UnitTest.exps {ε : Type} : UnitTest ε → List ε
  | .expect e e' => [e, e']
  | .assert e => [e]
  | .error e => [e]

/-- The expressions of a definition, the body of a function apart. -/
def Definition.exps {ε φ : Type} : Definition ε φ → List ε
  | .val _ e => [e]
  | .function _ _ => []
  | .exp e => [e]

/-- The expressions of a form, the body of a function apart. -/
def Form.exps {ε φ : Type} : Form ε φ → List ε
  | .definition d => d.exps
  | .use _ => []
  | .test t => t.exps

variable {L : Language} {T : Twin L} {R : Machine T.Memory → Machine L.Memory → Prop}

/-- Machines that go together have the same console, go together after the same change
to it, and what the language accepts leads from machines that go together to machines
that go together. -/
structure Twin.Follows (T : Twin L) (R : Machine T.Memory → Machine L.Memory → Prop) : Prop where
  console : ∀ {r m}, R r m → r.console = m.console
  withConsole : ∀ {r m}, R r m → ∀ console,
    R { r with console := console } { m with console := console }
  resetTrace : ∀ {r m}, R r m → R r.resetTrace m.resetTrace
  define : ∀ {r m limits echo d}, R r m → L.Accepts (.definition d) →
    Agree R Eq (T.define limits echo d r) (L.define limits echo d m)
  eval : ∀ {r m limits t e}, R r m → L.Accepts (.test t) → e ∈ t.exps →
    Agree R Eq (T.eval limits e r) (L.eval limits e m)

namespace Session

/-- Two sessions over machines that go together, with the same settings and files. -/
structure Pair (R : Machine T.Memory → Machine L.Memory → Prop) (s' : Session T.language)
    (s : Session L) : Prop where
  machine : R s'.machine s.machine
  limits : s'.limits = s.limits
  settings : s'.settings = s.settings
  mode : s'.mode = s.mode
  active : s'.active = s.active

/-- The same counts, and the same tests to be run, each of which the language accepts. -/
structure TallyPair (L : Language) (T : Twin L) (tally' : Tally T.language) (tally : Tally L) :
    Prop where
  summary : tally'.summary = tally.summary
  tests : tally'.tests = tally.tests
  accepted : ∀ t ∈ tally.tests, L.Accepts (.test t)

/-- Run texts, each under a name, one after the other. -/
def runTexts (disk : Disk) (texts : List (String × String)) (s : Session L) :
    Outcome (Session L) (List Summary) :=
  evalEach (fun text s => s.runSource disk text.1 text.2) texts s

end Session

namespace Twin.Follows

open Session

variable {s' : Session T.language} {s : Session L}

/-! ### Tests -/

theorem withMachine (h : Pair R s' s) {r : Machine T.Memory} {m : Machine L.Memory} (hm : R r m) :
    Pair R (s'.withMachine r) (s.withMachine m) :=
  ⟨hm, h.limits, h.settings, h.mode, h.active⟩

theorem withConsole' (hT : T.Follows R) (h : Pair R s' s) (console : Console) :
    Pair R (s'.withConsole console) (s.withConsole console) :=
  withMachine h (hT.withConsole h.machine console)

/-- Errors are caught alike. -/
theorem recover (hT : T.Follows R) (h : Pair R s' s) (e : Error) (summary : Summary) :
    (s'.recover e summary).1 = (s.recover e summary).1 ∧
      Pair R (s'.recover e summary).2 (s.recover e summary).2 := by
  obtain ⟨m', limits, settings, mode, active⟩ := s'
  obtain ⟨m, limits, settings, mode, active⟩ := s
  obtain ⟨hm, rfl, rfl, rfl, rfl⟩ := h
  have hconsole : m'.console = m.console := hT.console hm
  refine ⟨rfl, ?_, rfl, rfl, rfl, rfl⟩
  show R { m' with console := (m'.console.report mode settings.locations e).state, indent := 0 }
    { m with console := (m.console.report mode settings.locations e).state, indent := 0 }
  rw [hconsole]
  exact hT.resetTrace (hT.withConsole hm (m.console.report mode settings.locations e).state)

theorem tryEval (hT : T.Follows R) (h : Pair R s' s) {t : UnitTest L.Exp}
    (ht : L.Accepts (.test t)) {e : L.Exp} (he : e ∈ t.exps) (summary : Summary) :
    Agree (Pair R) Eq (s'.tryEval e summary) (s.tryEval e summary) := by
  have heval : Agree R Eq (T.eval s'.limits e s'.machine) (L.eval s.limits e s.machine) := by
    rw [h.limits]
    exact hT.eval h.machine ht he
  simp only [Session.tryEval]
  revert heval
  generalize T.eval s'.limits e s'.machine = o'
  generalize L.eval s.limits e s.machine = o
  intro heval
  cases heval with
  | value _ hm hv =>
    subst hv
    exact .value le_rfl (withMachine h hm) rfl
  | fault _ hm =>
    obtain ⟨hcounted, hs⟩ := hT.recover (withMachine h hm) _ summary
    exact .value le_rfl hs (congrArg (Prod.mk none) hcounted)
  | unfinished _ hm => exact .unfinished le_rfl (withMachine h hm)

theorem runTest (hT : T.Follows R) (h : Pair R s' s) {t : UnitTest L.Exp}
    (ht : L.Accepts (.test t)) (summary : Summary) :
    Agree (Pair R) Eq (s'.runTest t summary) (s.runTest t summary) := by
  cases t with
  | expect e e' =>
    refine (hT.tryEval h ht (by simp [UnitTest.exps]) summary).andThen ?_
    rintro ⟨⟩ - ⟨v, summary⟩ _ s₁' s₁ h₁ rfl
    cases v with
    | none => exact .value le_rfl h₁ rfl
    | some v =>
      refine (hT.tryEval h₁ ht (by simp [UnitTest.exps]) summary).andThen ?_
      rintro ⟨⟩ - ⟨v', summary⟩ _ s₂' s₂ h₂ rfl
      cases v' with
      | none => exact .value le_rfl h₂ rfl
      | some v' =>
        show Agree (Pair R) Eq (if L.equal v v' = true then _ else _)
          (if L.equal v v' = true then _ else _)
        split
        · exact .value le_rfl h₂ rfl
        · exact .value le_rfl h₂ rfl
  | assert e =>
    refine (hT.tryEval h ht (by simp [UnitTest.exps]) summary).andThen ?_
    rintro ⟨⟩ - ⟨v, summary⟩ _ s₁' s₁ h₁ rfl
    cases v with
    | none => exact .value le_rfl h₁ rfl
    | some v =>
      show Agree (Pair R) Eq (if L.isTrue v = true then _ else _)
        (if L.isTrue v = true then _ else _)
      split
      · exact .value le_rfl h₁ rfl
      · exact .value le_rfl h₁ rfl
  | error e =>
    refine (hT.tryEval h ht (by simp [UnitTest.exps]) summary).andThen ?_
    rintro ⟨⟩ - ⟨v, summary⟩ _ s₁' s₁ h₁ rfl
    cases v with
    | none => exact .value le_rfl h₁ rfl
    | some v => exact .value le_rfl h₁ rfl

theorem noteFailure (hT : T.Follows R) (h : Pair R s' s) (message : String) :
    Pair R (s'.noteFailure message) (s.noteFailure message) := by
  rw [Session.noteFailure, Session.noteFailure, hT.console h.machine]
  exact hT.withConsole' h _

theorem countPassed (hT : T.Follows R) {tests : List (UnitTest L.Exp)}
    (htests : ∀ t ∈ tests, L.Accepts (.test t)) (h : Pair R s' s) (passed : Nat)
    (summary : Summary) :
    Agree (Pair R) Eq (Session.countPassed passed summary tests s')
      (Session.countPassed passed summary tests s) := by
  induction tests generalizing passed summary s' s with
  | nil => exact .value le_rfl h rfl
  | cons t ts ih =>
    have htail : ∀ t ∈ ts, L.Accepts (.test t) :=
      fun t' ht' => htests t' (List.mem_cons_of_mem t ht')
    refine (hT.runTest h (htests t List.mem_cons_self) summary).andThen ?_
    rintro ⟨⟩ - ⟨verdict, summary⟩ _ s₁' s₁ h₁ rfl
    cases verdict with
    | passed => exact ih htail h₁ (passed + 1) summary
    | failed message => exact ih htail (hT.noteFailure h₁ message) passed summary

theorem noteTests (hT : T.Follows R) (h : Pair R s' s) (passed total : Nat) :
    Pair R (s'.noteTests passed total) (s.noteTests passed total) := by
  simp only [Session.noteTests, Machine.printLine, Outcome.state_mapState, Machine.withOut,
    hT.console h.machine]
  exact withMachine h (hT.withConsole h.machine _)

theorem runTests (hT : T.Follows R) {tests : List (UnitTest L.Exp)}
    (htests : ∀ t ∈ tests, L.Accepts (.test t)) (h : Pair R s' s) (summary : Summary) :
    Agree (Pair R) Eq (Session.runTests tests summary s') (Session.runTests tests summary s) := by
  unfold Session.runTests
  split
  · exact .value le_rfl h rfl
  · have htesting : Pair R { s' with mode := .testing } { s with mode := .testing } :=
      ⟨h.machine, h.limits, h.settings, rfl, h.active⟩
    refine (hT.countPassed htests htesting 0 summary).andThen ?_
    rintro ⟨⟩ - ⟨passed, summary⟩ _ s₁' s₁ h₁ rfl
    have hnormal : Pair R { s₁' with mode := .normal } { s₁ with mode := .normal } :=
      ⟨h₁.machine, h₁.limits, h₁.settings, rfl, h₁.active⟩
    exact .value le_rfl (hT.noteTests hnormal passed tests.length) rfl

/-! ### Units -/

theorem recoverIn (hT : T.Follows R) (h : Pair R s' s) (e : Error) {tally' : Tally T.language}
    {tally : Tally L} (ht : TallyPair L T tally' tally) :
    Agree (Pair R) (TallyPair L T) (s'.recoverIn e tally') (s.recoverIn e tally) := by
  obtain ⟨summary, tests⟩ := tally'
  obtain ⟨rfl, rfl, haccepted⟩ := ht
  obtain ⟨hsummary, hs⟩ := hT.recover h e tally.summary
  exact .value le_rfl hs ⟨hsummary, rfl, haccepted⟩

/-- What runs a file does so alike in both sessions. -/
def UsesAlike (R : Machine T.Memory → Machine L.Memory → Prop)
    (useFile' : String → Session T.language → Outcome (Session T.language) Summary)
    (useFile : String → Session L → Outcome (Session L) Summary) : Prop :=
  ∀ file s' s, Pair R s' s → Agree (Pair R) Eq (useFile' file s') (useFile file s)

variable {useFile' : String → Session T.language → Outcome (Session T.language) Summary}
  {useFile : String → Session L → Outcome (Session L) Summary}

theorem runForm (hT : T.Follows R) (huse : UsesAlike R useFile' useFile) (h : Pair R s' s)
    {form : Form L.Exp L.Function} (hform : L.Accepts form) {tally' : Tally T.language}
    {tally : Tally L} (ht : TallyPair L T tally' tally) :
    Agree (Pair R) (TallyPair L T) (Session.runForm useFile' form tally' s')
      (Session.runForm useFile form tally s) := by
  cases form with
  | definition d =>
    have hdefine : Agree R Eq (T.define s'.limits s'.settings.echo d s'.machine)
        (L.define s.limits s.settings.echo d s.machine) := by
      rw [h.limits, h.settings]
      exact hT.define h.machine hform
    simp only [Session.runForm]
    revert hdefine
    generalize T.define s'.limits s'.settings.echo d s'.machine = o'
    generalize L.define s.limits s.settings.echo d s.machine = o
    intro hdefine
    cases hdefine with
    | value _ hm _ => exact .value le_rfl (withMachine h hm) ht
    | fault _ hm => exact hT.recoverIn (withMachine h hm) _ ht
    | unfinished _ hm => exact .unfinished le_rfl (withMachine h hm)
  | use file =>
    have hfile := huse file s' s h
    simp only [Session.runForm]
    revert hfile
    generalize useFile' file s' = o'
    generalize useFile file s = o
    intro hfile
    cases hfile with
    | value _ hs hv =>
      refine .value le_rfl hs ⟨?_, ht.tests, ht.accepted⟩
      rw [hv, ht.summary]
    | fault _ hs => exact hT.recoverIn hs _ ht
    | unfinished _ hs => exact .unfinished le_rfl hs
  | test t =>
    refine .value le_rfl h ⟨ht.summary, congrArg (t :: ·) ht.tests, ?_⟩
    exact List.forall_mem_cons.2 ⟨hform, ht.accepted⟩

theorem runEntry (hT : T.Follows R) (huse : UsesAlike R useFile' useFile) (h : Pair R s' s)
    (entry : Entry) {tally' : Tally T.language} {tally : Tally L}
    (ht : TallyPair L T tally' tally) :
    Agree (Pair R) (TallyPair L T) (Session.runEntry useFile' entry tally' s')
      (Session.runEntry useFile entry tally s) := by
  unfold Session.runEntry
  cases entry.result with
  | error e => exact hT.recoverIn h _ ht
  | ok d =>
    simp only
    cases hform : L.recognise d with
    | error e => exact hT.recoverIn h _ ht
    | ok form => exact hT.runForm huse h ⟨d, hform⟩ ht

theorem runEntries (hT : T.Follows R) (huse : UsesAlike R useFile' useFile) (entries : List Entry)
    (h : Pair R s' s) {tally' : Tally T.language} {tally : Tally L}
    (ht : TallyPair L T tally' tally) :
    Agree (Pair R) (TallyPair L T) (Session.runEntries useFile' entries tally' s')
      (Session.runEntries useFile entries tally s) := by
  induction entries generalizing s' s tally' tally with
  | nil => exact .value le_rfl h ht
  | cons entry entries ih =>
    refine (hT.runEntry huse h entry ht).andThen ?_
    rintro ⟨⟩ - tally₁' tally₁ s₁' s₁ h₁ ht₁
    exact ih h₁ ht₁

theorem runUnit (hT : T.Follows R) (huse : UsesAlike R useFile' useFile) (source input : String)
    (h : Pair R s' s) :
    Agree (Pair R) Eq (Session.runUnit useFile' source input s')
      (Session.runUnit useFile source input s) := by
  have hstart : TallyPair L T ⟨.zero, []⟩ ⟨.zero, []⟩ := ⟨rfl, rfl, by simp⟩
  refine (hT.runEntries huse (readAll source input) h hstart).andThen ?_
  rintro ⟨⟩ - ⟨summary, tests⟩ tally s₁' s₁ h₁ ⟨rfl, rfl, haccepted⟩
  exact hT.runTests (fun t ht => haccepted t (List.mem_reverse.1 ht)) h₁ tally.summary

/-- Files within files, by induction on how deeply they may be nested. -/
theorem runFileWithin (hT : T.Follows R) (disk : Disk) (nesting : Nat) :
    UsesAlike R (T := T) (Session.runFileWithin disk nesting)
      (Session.runFileWithin disk nesting) := by
  induction nesting with
  | zero => exact fun path s' s h => .unfinished le_rfl h
  | succ nesting ih =>
    intro path s' s h
    unfold Session.runFileWithin
    cases disk.open? path with
    | none => exact .fault le_rfl h
    | some doc =>
      simp only [h.active]
      split
      · exact .fault le_rfl h
      · have hwithin : Pair R { s' with active := s.active ++ [doc.identity] }
            { s with active := s.active ++ [doc.identity] } :=
          ⟨h.machine, h.limits, h.settings, h.mode, rfl⟩
        refine (hT.runUnit ih path doc.text hwithin).mapState ?_
        exact fun _ e' e he =>
          ⟨he.machine, he.limits, he.settings, he.mode, congrArg List.dropLast he.active⟩

theorem runSource (hT : T.Follows R) (disk : Disk) (source input : String) (h : Pair R s' s) :
    Agree (Pair R) Eq (s'.runSource disk source input) (s.runSource disk source input) :=
  hT.runUnit (hT.runFileWithin disk (nesting disk)) source input h

/-- **Sessions over machines that go together go together.** -/
theorem runTexts (hT : T.Follows R) (disk : Disk) (texts : List (String × String))
    (h : Pair R s' s) : Agree (Pair R) Eq (s'.runTexts disk texts) (s.runTexts disk texts) := by
  have heach : Agree (Pair R) (fun bs bs' => bs.length = texts.length ∧ List.Forall₂ Eq bs bs')
      (s'.runTexts disk texts) (s.runTexts disk texts) := by
    refine Match.evalEach (V := fun _ : OneWorld => Eq) (fun _ hv => hv) h ?_
    rintro ⟨⟩ - text - s' s h
    exact hT.runSource disk text.1 text.2 h
  refine heach.forget (fun _ _ _ hs => hs) fun _ summaries summaries' hv => ?_
  rw [← List.forall₂_eq_eq_eq]
  exact hv.2

/-- If machines that go together are the same in the language itself, then so are sessions,
from a new one on. -/
theorem runTexts_session (hT : T.Follows R)
    (hview : ∀ r m, R r m → ⟨T.view r.memory, r.console, r.indent⟩ = m) (console : Console)
    (hstart : R ⟨T.initial, console, 0⟩ ⟨L.initial, console, 0⟩) (limits : Limits)
    (settings : Settings) (disk : Disk) (texts : List (String × String)) :
    let run' := (T.session console limits settings).runTexts disk texts
    let run := (Session.initial L console limits settings).runTexts disk texts
    Agree (fun s' s => T.plain s' = s) Eq run' run ∧ R run'.state.machine run.state.machine := by
  intro run' run
  have hrun : Agree (Pair R) Eq run' run :=
    hT.runTexts disk texts ⟨hstart, rfl, rfl, rfl, rfl⟩
  refine ⟨hrun.forget (fun _ s' s hs => ?_) fun _ _ _ hv => hv, ?_⟩
  · obtain ⟨machine, limits, settings, mode, active⟩ := s
    obtain ⟨hm, rfl, rfl, rfl, rfl⟩ := hs
    exact congrArg (Session.mk · _ _ _ _) (hview _ _ hm)
  · obtain ⟨-, -, hs⟩ := hrun.state
    exact hs.machine

end Twin.Follows

end Primer
