/-
Primer/Proofs/Units.lean

The run of a unit, form by form.

A session carries a tally through the forms of a unit: the counts so far, and
the tests that wait for the end.  No step looks at the tally.  What a form does
to the session is the same whatever has been counted before it, and what it
counts is added on top (`runEntries_add`), so units can be cut and put together
(`runEntries_append`).

A test leaves the session alone until the unit has come to its end.  Hence it
does not matter where among the other forms it stands: two units with the same
tests in the same order, and the same other forms in the same order, are run
alike (`tests_may_stand_anywhere`).

What a session keeps from one form to the next is stated through
`Outcome.Settles`.  A property that definitions, tests, printing and the catching of
errors keep is kept through a whole unit if the files that the unit uses keep it.  It is
enough if the definitions and tests keep it that can be read from a text
(`KeptByForms.settles_runUnit`).  The limits, the settings and the files in progress are
never changed, also where a unit does not come to its end (`SameSurroundings`).
-/
import Primer.Proofs.Sessions

namespace Primer

/-! ### Ends of computations -/

namespace Outcome

variable {σ α β γ : Type}

/-- The value at the end, if there is one. -/
def value? : Outcome σ α → Option α
  | .value a _ => some a
  | _ => none

/-- A computation that ended did so in a state with the property `P`. -/
def Leaves (P : σ → Prop) : Outcome σ α → Prop
  | .value _ s => P s
  | .fault _ s => P s
  | .unfinished _ => True

/-- A computation does not end in an error, and if it ended it did so in a state with
the property `P`. -/
def Settles (P : σ → Prop) : Outcome σ α → Prop
  | .value _ s => P s
  | .fault _ _ => False
  | .unfinished _ => True

namespace Settles

variable {P : σ → Prop}

theorem andThen {o : Outcome σ α} {f : α → σ → Outcome σ β} (h : Settles P o)
    (hf : ∀ a s, P s → Settles P (f a s)) : Settles P (o.andThen f) := by
  cases o with
  | value a s => exact hf a s h
  | fault e s => exact h.elim
  | unfinished s => trivial

theorem of_value {o : Outcome σ α} (h : Settles P o) {a : α} {s : σ} (ho : o = .value a s) :
    P s := by
  subst ho
  exact h

end Settles

theorem leaves_of_state {P : σ → Prop} {o : Outcome σ α} (h : P o.state) : Leaves P o := by
  cases o with
  | value a s => exact h
  | fault e s => exact h
  | unfinished s => trivial

theorem map_andThen (o : Outcome σ α) (f : α → σ → Outcome σ β) (g : β → γ) :
    (o.andThen f).map g = o.andThen fun a s => (f a s).map g := by
  cases o <;> rfl

theorem andThen_map (o : Outcome σ α) (f : α → β) (g : β → σ → Outcome σ γ) :
    (o.map f).andThen g = o.andThen fun a s => g (f a) s := by
  cases o <;> rfl

theorem map_map (o : Outcome σ α) (f : α → β) (g : β → γ) :
    (o.map f).map g = o.map fun a => g (f a) := by
  cases o <;> rfl

end Outcome

open Outcome

/-! ### The forms of a text -/

/-- The form that was read at some place, if it is one. -/
def Language.form? (L : Language) (entry : Entry) : Option (Form L.Exp L.Function) :=
  match entry.result with
  | .error _ => none
  | .ok d => (L.recognise d).toOption

theorem Language.form?_eq_some_iff {L : Language} {entry : Entry}
    {form : Form L.Exp L.Function} :
    L.form? entry = some form ↔ ∃ d, entry.result = .ok d ∧ L.recognise d = .ok form := by
  unfold form?
  cases entry.result with
  | error e => simp
  | ok d => cases hd : L.recognise d <;> simp [hd, Except.toOption]

/-- The forms that are found where texts are read. -/
def Language.Reads (L : Language) (form : Form L.Exp L.Function) : Prop :=
  ∃ source text, ∃ entry ∈ readAll source text, L.form? entry = some form

/-- The test that a form is, if it is one. -/
def Form.test? {ε φ : Type} : Form ε φ → Option (UnitTest ε)
  | .test t => some t
  | _ => none

/-- Whether a form is no test. -/
def Form.isPlain {ε φ : Type} (form : Form ε φ) : Bool := form.test?.isNone

/-- The tests among what was read, in order. -/
def Language.tests (L : Language) (entries : List Entry) : List (UnitTest L.Exp) :=
  entries.filterMap fun entry => (L.form? entry).bind Form.test?

namespace Summary

theorem zero_add (a : Summary) : Summary.zero.add a = a := by
  simp [add, zero]

theorem add_assoc (a b c : Summary) : (a.add b).add c = a.add (b.add c) := by
  simp [add, Nat.add_assoc]

end Summary

namespace Session

variable {L : Language} {useFile : String → Session L → Outcome (Session L) Summary}

/-! ### Tallies add up -/

namespace Tally

/-- Nothing has been counted and no test waits. -/
def zero : Tally L := ⟨.zero, []⟩

/-- What came of some forms, and then of others. -/
def add (a b : Tally L) : Tally L := ⟨a.summary.add b.summary, b.tests ++ a.tests⟩

theorem add_assoc (a b c : Tally L) : (a.add b).add c = a.add (b.add c) := by
  simp [add, Summary.add_assoc]

end Tally

theorem recoverIn_add (s : Session L) (e : Error) (tally : Tally L) :
    s.recoverIn e tally = (s.recoverIn e .zero).map tally.add := by
  simp only [recoverIn, recover, Outcome.map]
  split <;> simp [Tally.add, Tally.zero, Summary.add, Summary.zero]

theorem runForm_add (form : Form L.Exp L.Function) (tally : Tally L) (s : Session L) :
    runForm useFile form tally s = (runForm useFile form .zero s).map tally.add := by
  cases form with
  | definition d =>
    simp only [runForm]
    cases L.define s.limits s.settings.echo d s.machine with
    | value _ m => rfl
    | fault e m => exact recoverIn_add (s.withMachine m) e tally
    | unfinished m => rfl
  | use file =>
    simp only [runForm]
    cases useFile file s with
    | value nested s => simp [Outcome.map, Tally.add, Tally.zero, Summary.zero_add]
    | fault e s => exact recoverIn_add s e tally
    | unfinished s => rfl
  | test t => rfl

theorem runEntry_add (entry : Entry) (tally : Tally L) (s : Session L) :
    runEntry useFile entry tally s = (runEntry useFile entry .zero s).map tally.add := by
  unfold runEntry
  cases entry.result with
  | error e => exact recoverIn_add s _ tally
  | ok d =>
    simp only
    cases L.recognise d with
    | error e => exact recoverIn_add s _ tally
    | ok form => exact runForm_add form tally s

/-- The tally is carried along and looked at by nobody. -/
theorem runEntries_add (entries : List Entry) (tally : Tally L) (s : Session L) :
    runEntries useFile entries tally s = (runEntries useFile entries .zero s).map tally.add := by
  induction entries generalizing tally s with
  | nil => rfl
  | cons entry entries ih =>
    rw [runEntries, runEntries, runEntry_add, andThen_map, map_andThen]
    congr 1
    funext t s
    rw [ih, ih t, map_map]
    exact congrArg (Outcome.map · _) (funext fun a => Tally.add_assoc tally t a)

theorem runEntries_append (before after : List Entry) (tally : Tally L) (s : Session L) :
    runEntries useFile (before ++ after) tally s
      = (runEntries useFile before tally s).andThen (runEntries useFile after) := by
  induction before generalizing tally s with
  | nil => rfl
  | cons entry before ih =>
    rw [List.cons_append, runEntries, runEntries, andThen_assoc]
    congr 1
    funext t s
    exact ih t s

theorem tests_runForm {form : Form L.Exp L.Function} {tally tally' : Tally L} {s s' : Session L}
    (h : runForm useFile form tally s = .value tally' s') :
    tally'.tests = form.test?.toList ++ tally.tests := by
  cases form with
  | definition d =>
    simp only [runForm] at h
    split at h <;> cases h <;> rfl
  | use file =>
    simp only [runForm] at h
    split at h <;> cases h <;> rfl
  | test t =>
    cases h
    rfl

theorem tests_runEntry {entry : Entry} {tally tally' : Tally L} {s s' : Session L}
    (h : runEntry useFile entry tally s = .value tally' s') :
    tally'.tests = ((L.form? entry).bind Form.test?).toList ++ tally.tests := by
  unfold runEntry at h
  unfold Language.form?
  cases hresult : entry.result with
  | error e =>
    rw [hresult] at h
    cases h
    rfl
  | ok d =>
    rw [hresult] at h
    dsimp only at h ⊢
    cases hd : L.recognise d with
    | error e =>
      rw [hd] at h
      cases h
      rfl
    | ok form =>
      rw [hd] at h
      exact tests_runForm h

/-- The tests that wait at the end are those among what was read. -/
theorem tests_runEntries {entries : List Entry} {tally tally' : Tally L} {s s' : Session L}
    (h : runEntries useFile entries tally s = .value tally' s') :
    tally'.tests.reverse = tally.tests.reverse ++ L.tests entries := by
  induction entries generalizing tally s with
  | nil =>
    cases h
    simp [Language.tests]
  | cons entry entries ih =>
    obtain ⟨tally₁, s₁, h₁, h₂⟩ := andThen_eq_value_iff.1 h
    rw [ih h₂, tests_runEntry h₁, Language.tests, Language.tests]
    cases htest : (L.form? entry).bind Form.test? with
    | none => simp [htest]
    | some t => simp [htest]

/-! ### What is kept from form to form -/

/-- To sum up tests is to write to the console, whether it can be written to or not. -/
theorem noteTests_eq (s : Session L) (passed total : Nat) :
    s.noteTests passed total = s.withConsole { s.machine.console with
      out := (s.machine.console.out.writeLine fun _ => testReport passed total).state } := by
  rw [noteTests, Machine.printLine, state_mapState]
  rfl

/-- A property of sessions that the tests among the forms `A` keep.  Tests evaluate
expressions, print and catch errors. -/
structure KeptByTests (A : Form L.Exp L.Function → Prop) (P : Session L → Prop) : Prop where
  eval : ∀ s t e, A (.test t) → e ∈ t.exps → P s →
    Leaves (fun m => P (s.withMachine m)) (L.eval s.limits e s.machine)
  console : ∀ s c, P s → P (s.withConsole c)
  reset : ∀ s, P s → P (s.withMachine s.machine.resetTrace)

/-- A property of sessions that the forms `A` keep, the use of files apart. -/
structure KeptByForms (A : Form L.Exp L.Function → Prop) (P : Session L → Prop) : Prop
    extends KeptByTests A P where
  define : ∀ s d, A (.definition d) → P s →
    Leaves (fun m => P (s.withMachine m)) (L.define s.limits s.settings.echo d s.machine)
  normal : ∀ s, P s → P { s with mode := .normal }

/-- A property of sessions that all forms keep. -/
abbrev Kept (P : Session L → Prop) : Prop := KeptByForms (fun _ => True) P

variable {P : Session L → Prop} {A : Form L.Exp L.Function → Prop}

/-- What does not depend on the machine is kept. -/
theorem Kept.of_machine (hmachine : ∀ s m, P s → P (s.withMachine m))
    (hnormal : ∀ s, P s → P { s with mode := .normal }) : Kept P where
  eval s _ _ _ _ hs := leaves_of_state (hmachine s _ hs)
  console s _ hs := hmachine s _ hs
  reset s hs := hmachine s _ hs
  define s _ _ hs := leaves_of_state (hmachine s _ hs)
  normal := hnormal

namespace KeptByTests

theorem recover (hP : KeptByTests A P) {s : Session L} (hs : P s) (e : Error)
    (summary : Summary) : P (s.recover e summary).2 :=
  hP.reset _ (hP.console s (s.machine.console.report s.mode s.settings.locations e).state hs)

theorem settles_tryEval (hP : KeptByTests A P) {t : UnitTest L.Exp} (ht : A (.test t))
    {e : L.Exp} (he : e ∈ t.exps) (summary : Summary) {s : Session L} (hs : P s) :
    Settles P (s.tryEval e summary) := by
  have heval := hP.eval s t e ht he hs
  unfold tryEval
  revert heval
  cases L.eval s.limits e s.machine with
  | value v m => exact fun hm => hm
  | fault err m => exact fun hm => hP.recover hm err summary
  | unfinished m => exact fun _ => trivial

theorem settles_runTest (hP : KeptByTests A P) {t : UnitTest L.Exp} (ht : A (.test t))
    (summary : Summary) {s : Session L} (hs : P s) : Settles P (s.runTest t summary) := by
  have htry : ∀ e ∈ t.exps, ∀ summary s, P s → Settles P (s.tryEval e summary) :=
    fun e he summary s hs => hP.settles_tryEval ht he summary hs
  cases t with
  | expect e e' =>
    refine (htry e (by simp [UnitTest.exps]) summary s hs).andThen fun (v, summary) s hs => ?_
    cases v with
    | none => exact hs
    | some v =>
      refine (htry e' (by simp [UnitTest.exps]) summary s hs).andThen fun (v', summary) s hs => ?_
      cases v' with
      | none => exact hs
      | some v' =>
        dsimp only
        split <;> exact hs
  | assert e =>
    refine (htry e (by simp [UnitTest.exps]) summary s hs).andThen fun (v, summary) s hs => ?_
    cases v with
    | none => exact hs
    | some v =>
      dsimp only
      split <;> exact hs
  | error e =>
    refine (htry e (by simp [UnitTest.exps]) summary s hs).andThen fun (v, summary) s hs => ?_
    cases v <;> exact hs

theorem settles_countPassed (hP : KeptByTests A P) {tests : List (UnitTest L.Exp)}
    (htests : ∀ t ∈ tests, A (.test t)) (passed : Nat) (summary : Summary) {s : Session L}
    (hs : P s) : Settles P (countPassed passed summary tests s) := by
  induction tests generalizing s passed summary with
  | nil => exact hs
  | cons t ts ih =>
    obtain ⟨ht, hts⟩ := List.forall_mem_cons.1 htests
    refine (hP.settles_runTest ht summary hs).andThen fun (verdict, summary) s hs => ?_
    cases verdict with
    | passed => exact ih hts (passed + 1) summary hs
    | failed message => exact ih hts passed summary (hP.console s _ hs)

end KeptByTests

theorem countPassed_append (passed : Nat) (summary : Summary)
    (before after : List (UnitTest L.Exp)) (s : Session L) :
    countPassed passed summary (before ++ after) s
      = (countPassed passed summary before s).andThen fun counts s =>
          countPassed counts.1 counts.2 after s := by
  induction before generalizing passed summary s with
  | nil => rfl
  | cons t before ih =>
    rw [List.cons_append, countPassed, countPassed, andThen_assoc]
    congr 1
    funext (verdict, summary) s
    cases verdict with
    | passed => exact ih (passed + 1) summary s
    | failed message => exact ih passed summary (s.noteFailure message)

namespace KeptByForms

/-- While tests run the mode is another, so what is kept is the property in normal mode. -/
theorem testing (hP : KeptByForms A P) : KeptByTests A fun s => P { s with mode := .normal } where
  eval s t e ht he hs := hP.eval { s with mode := .normal } t e ht he hs
  console s c hs := hP.console { s with mode := .normal } c hs
  reset s hs := hP.reset { s with mode := .normal } hs

theorem settles_runTests (hP : KeptByForms A P) {tests : List (UnitTest L.Exp)}
    (htests : ∀ t ∈ tests, A (.test t)) (summary : Summary) {s : Session L} (hs : P s) :
    Settles P (runTests tests summary s) := by
  unfold runTests
  split
  · exact hs
  · have hcount := hP.testing.settles_countPassed htests 0 summary (hP.normal s hs)
      (s := { s with mode := .testing })
    revert hcount
    cases countPassed 0 summary tests { s with mode := .testing } with
    | value counts s =>
      intro hs
      show P ({ s with mode := .normal }.noteTests counts.1 tests.length)
      rw [noteTests_eq]
      exact hP.console { s with mode := .normal } _ hs
    | fault e s => exact fun h => h.elim
    | unfinished s => exact fun _ => trivial

theorem settles_recoverIn (hP : KeptByForms A P) {s : Session L} (hs : P s) (e : Error)
    (tally : Tally L) : Settles P (s.recoverIn e tally) :=
  hP.recover hs e tally.summary

theorem settles_runForm (hP : KeptByForms A P)
    (huse : ∀ file s, P s → Leaves P (useFile file s)) {form : Form L.Exp L.Function}
    (hform : A form) (tally : Tally L) {s : Session L} (hs : P s) :
    Settles P (runForm useFile form tally s) := by
  cases form with
  | definition d =>
    have hdefine := hP.define s d hform hs
    simp only [runForm]
    revert hdefine
    cases L.define s.limits s.settings.echo d s.machine with
    | value _ m => exact fun hm => hm
    | fault e m => exact fun hm => hP.settles_recoverIn hm e tally
    | unfinished m => exact fun _ => trivial
  | use file =>
    have hfile := huse file s hs
    simp only [runForm]
    revert hfile
    cases useFile file s with
    | value nested s => exact fun hs => hs
    | fault e s => exact fun hs => hP.settles_recoverIn hs e tally
    | unfinished s => exact fun _ => trivial
  | test t => exact hs

theorem settles_runEntry (hP : KeptByForms A P)
    (huse : ∀ file s, P s → Leaves P (useFile file s)) (entry : Entry)
    (hentry : ∀ form ∈ L.form? entry, A form) (tally : Tally L) {s : Session L} (hs : P s) :
    Settles P (runEntry useFile entry tally s) := by
  unfold Language.form? at hentry
  unfold runEntry
  cases hresult : entry.result with
  | error e => exact hP.settles_recoverIn hs _ tally
  | ok d =>
    simp only [hresult] at hentry ⊢
    cases hd : L.recognise d with
    | error e => exact hP.settles_recoverIn hs _ tally
    | ok form => exact hP.settles_runForm huse (hentry form (by rw [hd]; rfl)) tally hs

theorem settles_runEntries (hP : KeptByForms A P)
    (huse : ∀ file s, P s → Leaves P (useFile file s)) (entries : List Entry)
    (hentries : ∀ entry ∈ entries, ∀ form ∈ L.form? entry, A form) (tally : Tally L)
    {s : Session L} (hs : P s) : Settles P (runEntries useFile entries tally s) := by
  induction entries generalizing tally s with
  | nil => exact hs
  | cons entry entries ih =>
    obtain ⟨hentry, hrest⟩ := List.forall_mem_cons.1 hentries
    exact (hP.settles_runEntry huse entry hentry tally hs).andThen fun tally s hs =>
      ih hrest tally hs

end KeptByForms

/-- The tests that wait after some entries are forms that were read there. -/
theorem mem_of_runEntries {entries : List Entry} {tally : Tally L} {s s' : Session L}
    (h : runEntries useFile entries .zero s = .value tally s')
    (hentries : ∀ entry ∈ entries, ∀ form ∈ L.form? entry, A form) :
    ∀ t ∈ tally.tests.reverse, A (.test t) := by
  intro t ht
  rw [tests_runEntries h] at ht
  obtain ⟨entry, hentry, htest⟩ := List.mem_filterMap.1 ht
  obtain ⟨form, hform, hbind⟩ := Option.bind_eq_some_iff.1 htest
  have hA := hentries entry hentry form hform
  cases form with
  | test t' =>
    cases hbind
    exact hA
  | definition d => cases hbind
  | use file => cases hbind

namespace KeptByForms

variable (hP : KeptByForms A P) (hread : ∀ form, L.Reads form → A form)

include hP hread

/-- A unit never ends in an error, and what the files that it uses keep it keeps too. -/
theorem settles_runUnit (huse : ∀ file s, P s → Leaves P (useFile file s))
    (source input : String) {s : Session L} (hs : P s) :
    Settles P (runUnit useFile source input s) := by
  have hforms : ∀ entry ∈ readAll source input, ∀ form ∈ L.form? entry, A form :=
    fun entry hentry form hform => hread form ⟨source, input, entry, hentry, hform⟩
  have hentries := hP.settles_runEntries huse _ hforms .zero hs
  unfold runUnit
  cases h : runEntries useFile (readAll source input) .zero s with
  | value tally s' =>
    rw [h] at hentries
    simp only [Tally.zero] at h
    rw [h, andThen_value]
    exact hP.settles_runTests (mem_of_runEntries h hforms) tally.summary hentries
  | fault e s' =>
    rw [h] at hentries
    exact hentries.elim
  | unfinished s' =>
    simp only [Tally.zero] at h
    rw [h]
    trivial

/-- A file, with all files used from it, keeps what does not depend on the files in
progress either. -/
theorem leaves_runFileWithin (hactive : ∀ s a, P s → P { s with active := a })
    (disk : Disk) (nesting : Nat) (path : String) {s : Session L} (hs : P s) :
    Leaves P (runFileWithin disk nesting path s) := by
  induction nesting generalizing path s with
  | zero => trivial
  | succ nesting ih =>
    unfold runFileWithin
    cases disk.open? path with
    | none => exact hs
    | some doc =>
      dsimp only
      split
      · exact hs
      · have hunit := hP.settles_runUnit hread (fun file s hs => ih file hs) path doc.text
          (hactive s (s.active ++ [doc.identity]) hs)
        revert hunit
        cases runUnit (runFileWithin disk nesting) path doc.text
            { s with active := s.active ++ [doc.identity] } with
        | value summary s' => exact fun hs' => hactive s' s'.active.dropLast hs'
        | fault e s' => exact fun h => h.elim
        | unfinished s' => exact fun _ => trivial

end KeptByForms

/-! ### What is left alone -/

/-- The limits, the settings and the files in progress are the same. -/
structure SameSurroundings (s t : Session L) : Prop where
  limits : t.limits = s.limits
  settings : t.settings = s.settings
  active : t.active = s.active

namespace SameSurroundings

variable {s t : Session L}

theorem refl (s : Session L) : s.SameSurroundings s := ⟨rfl, rfl, rfl⟩

theorem trans {u : Session L} (h : s.SameSurroundings t) (h' : t.SameSurroundings u) :
    s.SameSurroundings u :=
  ⟨h'.limits.trans h.limits, h'.settings.trans h.settings, h'.active.trans h.active⟩

theorem tryEval (h : s.SameSurroundings t) (e : L.Exp) (summary : Summary) :
    s.SameSurroundings (t.tryEval e summary).state := by
  unfold Session.tryEval
  cases L.eval t.limits e t.machine <;> exact ⟨h.limits, h.settings, h.active⟩

theorem runTest (h : s.SameSurroundings t) (test : UnitTest L.Exp) (summary : Summary) :
    s.SameSurroundings (t.runTest test summary).state := by
  cases test with
  | expect e e' =>
    refine state_andThen (h.tryEval e summary) fun (v, summary) t ht => ?_
    cases v with
    | none => exact ht
    | some v =>
      refine state_andThen (ht.tryEval e' summary) fun (v', summary) t ht => ?_
      cases v' with
      | none => exact ht
      | some v' =>
        dsimp only
        split <;> exact ht
  | assert e =>
    refine state_andThen (h.tryEval e summary) fun (v, summary) t ht => ?_
    cases v with
    | none => exact ht
    | some v =>
      dsimp only
      split <;> exact ht
  | error e =>
    refine state_andThen (h.tryEval e summary) fun (v, summary) t ht => ?_
    cases v <;> exact ht

theorem countPassed (h : s.SameSurroundings t) (tests : List (UnitTest L.Exp)) (passed : Nat)
    (summary : Summary) : s.SameSurroundings (countPassed passed summary tests t).state := by
  induction tests generalizing t passed summary with
  | nil => exact h
  | cons test tests ih =>
    refine state_andThen (h.runTest test summary) fun (verdict, summary) t ht => ?_
    cases verdict with
    | passed => exact ih ht (passed + 1) summary
    | failed message =>
      exact ih (t := t.noteFailure message) ⟨ht.limits, ht.settings, ht.active⟩ passed summary

theorem runTests (h : s.SameSurroundings t) (tests : List (UnitTest L.Exp)) (summary : Summary) :
    s.SameSurroundings (runTests tests summary t).state := by
  unfold Session.runTests
  split
  · exact h
  · refine state_andThen (countPassed (t := { t with mode := .testing }) ?_ tests 0 summary) ?_
    · exact ⟨h.limits, h.settings, h.active⟩
    · exact fun _ t ht => ⟨ht.limits, ht.settings, ht.active⟩

section

variable (huse : ∀ file (t : Session L), t.SameSurroundings (useFile file t).state)

include huse

theorem runForm (h : s.SameSurroundings t) (form : Form L.Exp L.Function) (tally : Tally L) :
    s.SameSurroundings (runForm useFile form tally t).state := by
  cases form with
  | definition d =>
    simp only [Session.runForm]
    cases L.define t.limits t.settings.echo d t.machine <;>
      exact ⟨h.limits, h.settings, h.active⟩
  | use file =>
    have hfile := h.trans (huse file t)
    simp only [Session.runForm]
    generalize useFile file t = o at hfile ⊢
    cases o <;> exact ⟨hfile.limits, hfile.settings, hfile.active⟩
  | test t => exact h

theorem runEntry (h : s.SameSurroundings t) (entry : Entry) (tally : Tally L) :
    s.SameSurroundings (runEntry useFile entry tally t).state := by
  unfold Session.runEntry
  cases entry.result with
  | error e => exact ⟨h.limits, h.settings, h.active⟩
  | ok d =>
    dsimp only
    cases L.recognise d with
    | error e => exact ⟨h.limits, h.settings, h.active⟩
    | ok form => exact runForm huse h form tally

theorem runEntries (h : s.SameSurroundings t) (entries : List Entry) (tally : Tally L) :
    s.SameSurroundings (runEntries useFile entries tally t).state := by
  induction entries generalizing t tally with
  | nil => exact h
  | cons entry entries ih =>
    exact state_andThen (runEntry huse h entry tally) fun tally t ht => ih ht tally

theorem runUnit (s : Session L) (source input : String) :
    s.SameSurroundings (runUnit useFile source input s).state :=
  state_andThen (runEntries huse (.refl s) _ _) fun _ _ ht => ht.runTests _ _

end

/-- A file leaves them alone too, however it ended.  It is the last of the files in progress
when its text has been run, by induction on how deeply files may be nested, and so it is the
one that is taken off. -/
theorem runFileWithin (disk : Disk) (nesting : Nat) (path : String) (s : Session L) :
    s.SameSurroundings (runFileWithin disk nesting path s).state := by
  induction nesting generalizing path s with
  | zero => exact .refl s
  | succ nesting ih =>
    unfold Session.runFileWithin
    cases disk.open? path with
    | none => exact .refl s
    | some doc =>
      dsimp only
      split
      · exact .refl s
      · have hunit := runUnit ih { s with active := s.active ++ [doc.identity] } path doc.text
        rw [state_mapState]
        refine ⟨hunit.limits, hunit.settings, ?_⟩
        rw [hunit.active, List.dropLast_concat]

end SameSurroundings

/-! ### Tests among other forms -/

/-- Run forms in order. -/
def runForms (useFile : String → Session L → Outcome (Session L) Summary) :
    List (Form L.Exp L.Function) → Tally L → Session L → Outcome (Session L) (Tally L)
  | [], tally, s => .value tally s
  | form :: forms, tally, s =>
      (runForm useFile form tally s).andThen fun tally s => runForms useFile forms tally s

/-- Where all that was read is a form, only the forms matter. -/
theorem runEntries_eq_runForms {entries : List Entry} {forms : List (Form L.Exp L.Function)}
    (h : entries.map L.form? = forms.map some) (tally : Tally L) (s : Session L) :
    runEntries useFile entries tally s = runForms useFile forms tally s := by
  induction entries generalizing forms tally s with
  | nil =>
    obtain rfl : forms = [] := by simpa using h.symm
    rfl
  | cons entry entries ih =>
    obtain ⟨form, forms, rfl⟩ : ∃ form rest, forms = form :: rest := by
      cases forms with
      | nil => cases h
      | cons form rest => exact ⟨form, rest, rfl⟩
    obtain ⟨hentry, hrest⟩ := List.cons.inj h
    have hform : runEntry useFile entry tally s = runForm useFile form tally s := by
      unfold Language.form? at hentry
      unfold runEntry
      cases hresult : entry.result with
      | error e => simp [hresult] at hentry
      | ok d =>
        cases hd : L.recognise d with
        | error e => simp [hresult, hd, Except.toOption] at hentry
        | ok form' =>
          obtain rfl : form' = form := by simpa [hresult, hd, Except.toOption] using hentry
          simp only [hd]
    rw [runEntries, runForms, hform]
    congr 1
    funext tally s
    exact ih hrest tally s

/-- A form that is no test leaves the tests that wait as they are. -/
theorem runForm_of_isPlain {form : Form L.Exp L.Function} (h : form.isPlain = true)
    (summary : Summary) (tests : List (UnitTest L.Exp)) (s : Session L) :
    runForm useFile form ⟨summary, tests⟩ s
      = (runForm useFile form ⟨summary, []⟩ s).map fun tally => ⟨tally.summary, tests⟩ := by
  cases form with
  | definition d =>
    simp only [runForm]
    cases L.define s.limits s.settings.echo d s.machine <;> rfl
  | use file =>
    simp only [runForm]
    cases useFile file s <;> rfl
  | test t => cases h

/-- Tests only wait: the other forms are run as if there were none of them. -/
theorem runForms_eq_map (forms : List (Form L.Exp L.Function)) (summary : Summary)
    (tests : List (UnitTest L.Exp)) (s : Session L) :
    runForms useFile forms ⟨summary, tests⟩ s
      = (runForms useFile (forms.filter Form.isPlain) ⟨summary, []⟩ s).map fun tally =>
          ⟨tally.summary, (forms.filterMap Form.test?).reverse ++ tests⟩ := by
  induction forms generalizing summary tests s with
  | nil => rfl
  | cons form forms ih =>
    cases hform : form.isPlain with
    | false =>
      obtain ⟨t, rfl⟩ : ∃ t, form = .test t := by
        cases form with
        | test t => exact ⟨t, rfl⟩
        | definition d => cases hform
        | use file => cases hform
      have htests : (Form.test t :: forms).filterMap Form.test?
          = t :: forms.filterMap Form.test? := rfl
      rw [List.filter_cons_of_neg (by simp [hform]), htests, List.reverse_cons, List.append_assoc]
      exact ih summary (t :: tests) s
    | true =>
      have hnone : form.test? = none := by simpa [Form.isPlain] using hform
      rw [List.filter_cons_of_pos hform, List.filterMap_cons_none hnone, runForms, runForms,
        map_andThen]
      -- the tally after the form, as it is when no test waits
      have hform₀ : runForm useFile form ⟨summary, []⟩ s = _ :=
        runForm_of_isPlain hform summary [] s
      rw [runForm_of_isPlain hform, andThen_map]
      conv => rhs; rw [hform₀, andThen_map]
      congr 1
      funext tally s
      exact ih tally.summary tests s

/-- The run of a unit all of whose data are forms: the forms that are no tests, and then
the tests. -/
theorem runUnit_eq_of_forms {source text : String} {forms : List (Form L.Exp L.Function)}
    (h : (readAll source text).map L.form? = forms.map some) (s : Session L) :
    runUnit useFile source text s
      = (runForms useFile (forms.filter Form.isPlain) .zero s).andThen fun tally s =>
          runTests (forms.filterMap Form.test?) tally.summary s := by
  rw [runUnit, runEntries_eq_runForms h, runForms_eq_map, andThen_map]
  simp only [List.append_nil, List.reverse_reverse]
  rfl

/-- **Tests see the whole unit, wherever they stand.**  Take two texts all of whose data
are forms.  If they have the same tests in the same order and the same other forms in the
same order, then a session runs them alike, whatever the forms do: both runs come to an end
or neither does, with the same counts, and they leave the same session, with what has been
written on its channels. -/
theorem tests_may_stand_anywhere (disk : Disk) (s : Session L) {source source' text text' : String}
    {forms forms' : List (Form L.Exp L.Function)}
    (htext : (readAll source text).map L.form? = forms.map some)
    (htext' : (readAll source' text').map L.form? = forms'.map some)
    (hplain : forms.filter Form.isPlain = forms'.filter Form.isPlain)
    (htests : forms.filterMap Form.test? = forms'.filterMap Form.test?) :
    s.runSource disk source text = s.runSource disk source' text' := by
  rw [runSource, runSource, runUnit_eq_of_forms htext, runUnit_eq_of_forms htext', hplain, htests]

/-- A test before all other forms and after them.  One of the others fails and another one
uses a file with a test of its own. -/
theorem tests_may_stand_anywhere_first_or_last :
    let disk : Disk := ⟨[⟨"t", "(check-error x)"⟩], some⟩
    let text := "(check-assert x) (use t) y (val x #t)"
    let text' := "(use t) y (val x #t) (check-assert x)"
    let s := Session.initial .functional .empty ⟨9, 9⟩ ⟨.on, .shown⟩
    let run := s.runSource disk "u" text
    (run.value? = some ⟨1, 2, 2⟩ ∧
      run.state.machine.console.out.text
        = "The only test passed.\n#t\nThe only test passed.\n" ∧
      run.state.machine.console.diag.text = "Run-time error: name y not found\n") ∧
    run = s.runSource disk "v" text' := by
  intro disk text text' s run
  let test : Form Functional.Exp Functional.Lambda := .test (.assert (.var "x"))
  let use : Form Functional.Exp Functional.Lambda := .use "t"
  let fail : Form Functional.Exp Functional.Lambda := .definition (.exp (.var "y"))
  let val : Form Functional.Exp Functional.Lambda :=
    .definition (.val "x" (.literal (.bool true)))
  have hread : readAll "u" text = [⟨⟨"u", 1⟩, .ok (.list [.symbol "check-assert", .symbol "x"])⟩,
      ⟨⟨"u", 1⟩, .ok (.list [.symbol "use", .symbol "t"])⟩, ⟨⟨"u", 1⟩, .ok (.symbol "y")⟩,
      ⟨⟨"u", 1⟩, .ok (.list [.symbol "val", .symbol "x", .bool true])⟩] := by
    simp only [text]
    rfl
  have hread' : readAll "v" text' = [⟨⟨"v", 1⟩, .ok (.list [.symbol "use", .symbol "t"])⟩,
      ⟨⟨"v", 1⟩, .ok (.symbol "y")⟩,
      ⟨⟨"v", 1⟩, .ok (.list [.symbol "val", .symbol "x", .bool true])⟩,
      ⟨⟨"v", 1⟩, .ok (.list [.symbol "check-assert", .symbol "x"])⟩] := by
    simp only [text']
    rfl
  have htext : (readAll "u" text).map Language.functional.form?
      = [test, use, fail, val].map some := by
    rw [hread]
    rfl
  have htext' : (readAll "v" text').map Language.functional.form?
      = [use, fail, val, test].map some := by
    rw [hread']
    rfl
  exact ⟨by decide +kernel, tests_may_stand_anywhere disk s htext htext' rfl rfl⟩

end Session

end Primer
