/-
Primer/Proofs/Presentation.lean

How results are presented makes no difference to them.

Two sessions run the same texts.  They may differ in whether definitions are echoed, in
how errors are worded, and in what is wrong with the flushing of the output and with
the diagnostics.  As long as the output takes what is written and the first session
never binds the trace count, both count the same and end with the same memory; if both
echo alike they print the same as well (`results_do_not_depend_on_presentation`).

A session writes to its console where a definition is echoed, where an error or a
failed test is reported and where tests are summed up.  What it reports goes to the
diagnostics, and that a report fails is passed over, so sessions that differ in this
way still do when they have reported something (`Session.Presents.recover`).
-/
import Primer.Proofs.Functional.Presenting
import Primer.Proofs.Procedural.Presenting
import Primer.Proofs.Units

namespace Primer

open Outcome

/-! ### Going on after an error -/

section

variable {σ τ α β : Type}

/-- Go on after a value or after an error, in a state around the one that was reached. -/
def Outcome.resume (back : σ → τ) (next : α → τ → Outcome τ β) (caught : Error → τ → Outcome τ β) :
    Outcome σ α → Outcome τ β
  | .value a s => next a (back s)
  | .fault e s => caught e (back s)
  | .unfinished s => .unfinished (back s)

/-- Computations that agree, and go on in ways that agree. -/
theorem Outcome.Tracks.resume {P : σ → Prop} {S : σ → σ → Prop} {Q : τ → Prop} {R : τ → τ → Prop}
    {run : τ → Outcome σ α} {back : τ → σ → τ} {next : α → τ → Outcome τ β}
    {caught : Error → τ → Outcome τ β} (hkeeps : ∀ t, Q t → P (run t).state)
    (hagree : ∀ {t t'}, R t t' → P (run t).state ∨ Agree S Eq (run t) (run t'))
    (hP : ∀ t s, P s → Q (back t s))
    (hS : ∀ {t t' s s'}, R t t' → S s s' → R (back t s) (back t' s'))
    (hnext : ∀ a, Tracks Q R (next a) (next a)) (hcaught : ∀ e, Tracks Q R (caught e) (caught e)) :
    Tracks Q R (fun t => (run t).resume (back t) next caught) fun t =>
      (run t).resume (back t) next caught := by
  -- from `P` on, whatever comes next keeps `Q`
  have hrest : ∀ t (o : Outcome σ α), P o.state → Q (o.resume (back t) next caught).state := by
    intro t o ho
    cases o with
    | value a s => exact (hnext a).keeps _ (hP t s ho)
    | fault e s => exact (hcaught e).keeps _ (hP t s ho)
    | unfinished s => exact hP t s ho
  refine ⟨fun t ht => hrest t _ (hkeeps t ht), fun {t t'} h => ?_⟩
  have hruns := hagree h
  generalize run t = o at hruns
  generalize run t' = o' at hruns
  rcases hruns with ho | hruns
  · exact .inl (hrest t o ho)
  · cases hruns with
    | @value _ a _ _ _ _ hs hv =>
      subst hv
      exact (hnext a).agree (hS h hs)
    | @fault _ e _ _ _ hs => exact (hcaught e).agree (hS h hs)
    | unfinished _ hs => exact .inr (.unfinished le_rfl (hS h hs))

end

/-! ### Reports -/

namespace Console

/-- Before a note the output is flushed, and nothing else happens to it. -/
theorem out_note (c : Console) (line : String) : (c.note line).state.out = c.out.flush.state := by
  unfold note
  cases c.out.flush with
  | value _ out => exact congrArg Console.out (state_mapState _ _)
  | fault e out => rfl
  | unfinished out => rfl

theorem out_report (c : Console) (style : LocationStyle) (e : Error) :
    (c.report .normal style e).state.out = c.out.flush.state := by
  rw [← c.out_note (e.render style)]
  simp only [report]
  cases c.note (e.render style) with
  | value _ c =>
    rw [andThen_value, state_mapState]
    rfl
  | fault err c => rfl
  | unfinished c => rfl

end Console

namespace Channel.Alike

variable {same : Prop}

theorem flush {out out' : Channel} (h : out.Alike same out') :
    out.flush.state.Alike same out'.flush.state := by
  rw [state_flush, state_flush]
  exact ⟨h.takes, h.takes', h.text⟩

theorem note {c c' : Console} (h : c.out.Alike same c'.out) (line : String) :
    (c.note line).state.out.Alike same (c'.note line).state.out := by
  rw [Console.out_note, Console.out_note]
  exact h.flush

theorem report {c c' : Console} (h : c.out.Alike same c'.out) (mode : CatchMode)
    (style style' : LocationStyle) (e : Error) :
    (c.report mode style e).state.out.Alike same (c'.report mode style' e).state.out := by
  cases mode with
  | testing => exact h
  | normal =>
    rw [Console.out_report, Console.out_report]
    exact h.flush

end Channel.Alike

/-! ### Sessions -/

/-- Sessions that differ only in how they present their results. -/
structure Session.Presents {L : Language} (I : L.Memory → Prop) (same : Prop) (s s' : Session L) :
    Prop where
  machine : s.machine.Presents I same s'.machine
  limits : s.limits = s'.limits
  echo : same → s.settings.echo = s'.settings.echo
  mode : s.mode = s'.mode
  active : s.active = s'.active

/-- A language whose programs compute the same however results are presented, unless they
come to a memory with the property `P`. -/
structure Language.Presentable (L : Language) (P I : L.Memory → Prop) : Prop where
  define : ∀ {same : Prop} {echo echo'}, (same → echo = echo') → ∀ limits d,
    Machine.Tracks P I same (L.define limits echo d) (L.define limits echo' d)
  eval : ∀ same limits e, Machine.Tracks P I same (L.eval limits e) (L.eval limits e)

namespace Session

/-- What a session does, in two sessions that differ only in how they present their results. -/
abbrev Unaffected {L : Language} {α : Type} (P I : L.Memory → Prop) (same : Prop)
    (run : Session L → Outcome (Session L) α) : Prop :=
  Tracks (fun s => P s.machine.memory) (Presents I same) run run

section

variable {L : Language} {P I : L.Memory → Prop} {same : Prop} {s s' : Session L}

theorem Presents.withMachine (h : s.Presents I same s') {m m' : Machine L.Memory}
    (hm : m.Presents I same m') : Presents I same (s.withMachine m) (s'.withMachine m') :=
  ⟨hm, h.limits, h.echo, h.mode, h.active⟩

/-- Errors are counted alike, whatever comes of the report. -/
theorem Presents.recover (h : s.Presents I same s') (e : Error) (summary : Summary) :
    (s.recover e summary).1 = (s'.recover e summary).1 ∧
      Presents I same (s.recover e summary).2 (s'.recover e summary).2 := by
  constructor
  · show (if s.mode = .normal then _ else _) = (if s'.mode = .normal then _ else _)
    rw [h.mode]
  · have hout := h.machine.out.report s.mode s.settings.locations s'.settings.locations e
    refine h.withMachine ⟨h.machine.memory, h.machine.inv, ?_⟩
    rw [← h.mode]
    exact hout

theorem Presents.noteFailure (h : s.Presents I same s') (message : String) :
    Presents I same (s.noteFailure message) (s'.noteFailure message) :=
  h.withMachine ⟨h.machine.memory, h.machine.inv, h.machine.out.note message⟩

theorem Presents.noteTests (h : s.Presents I same s') (passed total : Nat) :
    Presents I same (s.noteTests passed total) (s'.noteTests passed total) := by
  rw [noteTests_eq, noteTests_eq, Channel.writeLine, Channel.writeLine,
    h.machine.out.takes.writeText, h.machine.out.takes'.writeText]
  exact h.withMachine (h.machine.withOut (h.machine.out.wrote _))

theorem unaffected_recoverIn (e : Error) (tally : Tally L) :
    Unaffected P I same fun s : Session L => s.recoverIn e tally := by
  refine ⟨fun s hs => hs, fun {s s'} h => .inr ?_⟩
  obtain ⟨hsummary, hs⟩ := h.recover e tally.summary
  exact .value le_rfl hs (congrArg (Tally.mk · tally.tests) hsummary)

end

/-! ### Tests -/

section

variable {L : Language} {P I : L.Memory → Prop} {same : Prop} (hL : L.Presentable P I)

include hL

theorem unaffected_tryEval (e : L.Exp) (summary : Summary) :
    Unaffected P I same fun s : Session L => s.tryEval e summary := by
  have heq : (fun s : Session L => s.tryEval e summary) = fun s =>
      (L.eval s.limits e s.machine).resume s.withMachine (fun v => .value (some v, summary))
        fun err s => .value (none, (s.recover err summary).1) (s.recover err summary).2 := by
    funext s
    unfold tryEval
    cases L.eval s.limits e s.machine <;> rfl
  rw [heq]
  refine Tracks.resume (P := fun m => P m.memory) (S := Machine.Presents I same)
    (fun s hs => (hL.eval same s.limits e).keeps s.machine hs) (fun {s s'} h => ?_)
    (fun s m hm => hm) (fun h hm => h.withMachine hm) (fun v => .value (some v, summary))
    fun err => ⟨fun s hs => hs, fun {s s'} h => .inr ?_⟩
  · rw [← h.limits]
    exact (hL.eval same s.limits e).agree h.machine
  · obtain ⟨hsummary, hs⟩ := h.recover err summary
    exact .value le_rfl hs (congrArg (none, ·) hsummary)

theorem unaffected_runTest (t : UnitTest L.Exp) (summary : Summary) :
    Unaffected P I same fun s : Session L => s.runTest t summary := by
  cases t with
  | expect e e' =>
    refine (unaffected_tryEval hL e summary).andThen fun (v, summary) => ?_
    cases v with
    | none => exact .value _
    | some v =>
      refine (unaffected_tryEval hL e' summary).andThen fun (v', summary) => ?_
      cases v' with
      | none => exact .value _
      | some v' =>
        dsimp only
        cases L.equal v v' with
        | true => exact .value _
        | false => exact .value _
  | assert e =>
    refine (unaffected_tryEval hL e summary).andThen fun (v, summary) => ?_
    cases v with
    | none => exact .value _
    | some v =>
      dsimp only
      cases L.isTrue v with
      | true => exact .value _
      | false => exact .value _
  | error e =>
    refine (unaffected_tryEval hL e summary).andThen fun (v, summary) => ?_
    cases v with
    | none => exact .value _
    | some v => exact .value _

theorem unaffected_countPassed (passed : Nat) (summary : Summary)
    (tests : List (UnitTest L.Exp)) :
    Unaffected P I same (countPassed (L := L) passed summary tests) := by
  induction tests generalizing passed summary with
  | nil => exact .value (passed, summary)
  | cons t ts ih =>
    refine (unaffected_runTest hL t summary).andThen fun (verdict, summary) => ?_
    cases verdict with
    | passed => exact ih (passed + 1) summary
    | failed message =>
      refine (ih passed summary).after (fun s hs => ?_) fun h => h.noteFailure message
      exact hs

theorem unaffected_runTests (tests : List (UnitTest L.Exp)) (summary : Summary) :
    Unaffected P I same (runTests (L := L) tests summary) := by
  cases tests with
  | nil => exact .value summary
  | cons t ts =>
    have hcount : Unaffected P I same fun s : Session L =>
        countPassed 0 summary (t :: ts) { s with mode := .testing } := by
      refine (unaffected_countPassed hL 0 summary (t :: ts)).after (fun s hs => hs) fun h => ?_
      exact ⟨h.machine, h.limits, h.echo, rfl, h.active⟩
    refine hcount.andThen fun (passed, summary) => ?_
    refine (Tracks.value _).after
      (f := fun s : Session L => { s with mode := .normal }.noteTests passed (t :: ts).length)
      (fun s hs => ?_) fun {s s'} h => ?_
    · rw [noteTests_eq]
      exact hs
    · have hnormal : Presents I same { s with mode := .normal } { s' with mode := .normal } :=
        ⟨h.machine, h.limits, h.echo, rfl, h.active⟩
      exact hnormal.noteTests passed (t :: ts).length

/-! ### Units -/

variable {useFile : String → Session L → Outcome (Session L) Summary}
  (huse : ∀ file, Unaffected P I same (useFile file))

include huse

theorem unaffected_runForm (form : Form L.Exp L.Function) (tally : Tally L) :
    Unaffected P I same (runForm useFile form tally) := by
  cases form with
  | definition d =>
    have heq : runForm useFile (.definition d) tally = fun s =>
        (L.define s.limits s.settings.echo d s.machine).resume s.withMachine
          (fun _ => .value tally) fun e s => s.recoverIn e tally := by
      funext s
      simp only [runForm]
      cases L.define s.limits s.settings.echo d s.machine <;> rfl
    rw [heq]
    refine Tracks.resume (P := fun m => P m.memory) (S := Machine.Presents I same)
      (fun s hs => ?_) (fun {s s'} h => ?_) (fun s m hm => hm) (fun h hm => h.withMachine hm)
      (fun _ => .value tally) fun e => unaffected_recoverIn e tally
    · -- to keep `P` is a matter of one session only, with whatever echo it has
      have hdefine : Machine.Tracks P I same (L.define s.limits s.settings.echo d)
          (L.define s.limits s.settings.echo d) := hL.define (fun _ => rfl) s.limits d
      exact hdefine.keeps s.machine hs
    · rw [← h.limits]
      exact (hL.define h.echo s.limits d).agree h.machine
  | use file =>
    have heq : runForm useFile (.use file) tally = fun s =>
        (useFile file s).resume id
          (fun nested => .value { tally with summary := tally.summary.add nested })
          fun e s => s.recoverIn e tally := by
      funext s
      simp only [runForm]
      cases useFile file s <;> rfl
    rw [heq]
    exact Tracks.resume (P := fun s : Session L => P s.machine.memory) (S := Presents I same)
      (fun s hs => (huse file).keeps s hs) (fun h => (huse file).agree h) (fun _ _ hs => hs)
      (fun _ hs => hs) (fun nested => .value _) fun e => unaffected_recoverIn e tally
  | test t => exact .value _

theorem unaffected_runEntry (entry : Entry) (tally : Tally L) :
    Unaffected P I same (runEntry useFile entry tally) := by
  cases hresult : entry.result with
  | error e =>
    have heq : runEntry useFile entry tally = fun s => s.recoverIn (.malformed e) tally := by
      funext s
      simp only [runEntry, hresult]
    rw [heq]
    exact unaffected_recoverIn _ tally
  | ok d =>
    cases hform : L.recognise d with
    | error e =>
      have heq : runEntry useFile entry tally = fun s =>
          s.recoverIn (.malformed (e.locate entry.location)) tally := by
        funext s
        simp only [runEntry, hresult, hform]
      rw [heq]
      exact unaffected_recoverIn _ tally
    | ok form =>
      have heq : runEntry useFile entry tally = runForm useFile form tally := by
        funext s
        simp only [runEntry, hresult, hform]
      rw [heq]
      exact unaffected_runForm hL huse form tally

theorem unaffected_runEntries (entries : List Entry) (tally : Tally L) :
    Unaffected P I same (runEntries useFile entries tally) := by
  induction entries generalizing tally with
  | nil => exact .value tally
  | cons entry entries ih => exact (unaffected_runEntry hL huse entry tally).andThen ih

theorem unaffected_runUnit (source input : String) :
    Unaffected P I same (runUnit useFile source input) :=
  (unaffected_runEntries hL huse _ _).andThen fun tally =>
    unaffected_runTests hL tally.tests.reverse tally.summary

omit huse

/-- Files within files, by induction on how deeply they may be nested. -/
theorem unaffected_runFileWithin (disk : Disk) (n : Nat) (path : String) :
    Unaffected P I same (runFileWithin (L := L) disk n path) := by
  induction n generalizing path with
  | zero => exact .unfinished
  | succ n ih =>
    cases hopen : disk.open? path with
    | none =>
      have heq : runFileWithin (L := L) disk (n + 1) path
          = Outcome.fault (.failure ("cannot open file \"" ++ path ++ "\"")) := by
        funext s
        simp only [runFileWithin, hopen]
      rw [heq]
      exact .fault _
    | some doc =>
      have hunit : Unaffected P I same (runUnit (L := L) (runFileWithin disk n) path doc.text) :=
        unaffected_runUnit hL ih path doc.text
      refine ⟨fun s hs => ?_, fun {s s'} h => ?_⟩
      · simp only [runFileWithin, hopen]
        split
        · exact hs
        · rw [state_mapState]
          exact hunit.keeps { s with active := s.active ++ [doc.identity] } hs
      · -- the same files are in progress, so both find the file circular or neither does
        simp only [runFileWithin, hopen, ← h.active]
        split
        · exact .inr (.fault le_rfl h)
        · have hwithin : Presents I same { s with active := s.active ++ [doc.identity] }
              { s' with active := s.active ++ [doc.identity] } :=
            ⟨h.machine, h.limits, h.echo, h.mode, rfl⟩
          refine (hunit.agree hwithin).imp (fun hs => ?_) fun hagree => ?_
          · rw [state_mapState]
            exact hs
          · refine hagree.mapState fun _ t t' ht => ?_
            exact ⟨ht.machine, ht.limits, ht.echo, ht.mode, congrArg List.dropLast ht.active⟩

theorem unaffected_runSource (disk : Disk) (source input : String) :
    Unaffected P I same (runSource (L := L) disk source input) := by
  have huse : ∀ file, Unaffected P I same (runFile (L := L) disk file) :=
    unaffected_runFileWithin hL disk (nesting disk)
  exact unaffected_runUnit hL huse source input

/-- All that a session does, it does alike however it presents its results. -/
theorem unaffected_runTexts (disk : Disk) (texts : List (String × String)) :
    Unaffected P I same (runTexts (L := L) disk texts) := by
  have heach : ∀ text : String × String, Unaffected P I same fun s : Session L =>
      s.runSource disk text.1 text.2 :=
    fun text => unaffected_runSource hL disk text.1 text.2
  exact Tracks.evalEach heach texts

end

end Session

/-! ### The two languages -/

theorem Language.presentable_functional : Language.functional.Presentable
    (fun memory => Functional.Memory.binds Trace.countName memory = true) fun _ => True :=
  ⟨fun hecho limits d => (Functional.tracks_define hecho limits d).map fun _ => (),
    fun _ limits e => Functional.tracks_evalGlobal limits e⟩

theorem Language.presentable_watched : Procedural.watchedTwin.language.Presentable
    (fun memory => Procedural.binds Trace.countName memory = true) Procedural.Clear :=
  ⟨fun hecho limits d => Procedural.tracks_watchDefine hecho limits d,
    fun _ limits e => Procedural.tracks_watchGlobal limits e⟩

section

variable {L : Language}

/-- The same counts and the same memory at the end, and the same output if that is asked. -/
abbrev SameResults (same : Prop) :
    Outcome (Session L) (List Summary) → Outcome (Session L) (List Summary) → Prop :=
  Agree (fun s s' => s.machine.memory = s'.machine.memory ∧
    (same → s.machine.console.out.text = s'.machine.console.out.text)) Eq

/-- New sessions that run the same texts. -/
theorem presents_initial {P I : L.Memory → Prop} (hL : L.Presentable P I) (hinitial : I L.initial)
    {console console' : Console} {settings settings' : Settings}
    (hout : console.out.Alike (settings.echo = settings'.echo) console'.out) (limits : Limits)
    (disk : Disk) (texts : List (String × String)) :
    let run := (Session.initial L console limits settings).runTexts disk texts
    let run' := (Session.initial L console' limits settings').runTexts disk texts
    ¬ P run.state.machine.memory →
      Agree (Session.Presents I (settings.echo = settings'.echo)) Eq run run' := by
  intro run run' hP
  have hstart : (Session.initial L console limits settings).Presents I
      (settings.echo = settings'.echo) (Session.initial L console' limits settings') :=
    ⟨⟨rfl, hinitial, hout⟩, rfl, id, rfl, rfl⟩
  exact ((Session.unaffected_runTexts hL disk texts).agree hstart).resolve_left hP

end

/-- Computations that go together with two others agree as these do. -/
theorem Outcome.agree_along {σ τ α : Type} {R : σ → τ → Prop} {S : σ → σ → Prop} {S' : τ → τ → Prop}
    {o o' : Outcome σ α} {p p' : Outcome τ α} (h : Agree R Eq o p) (h' : Agree R Eq o' p')
    (hS : ∀ {s s' t t'}, R s t → R s' t' → S s s' → S' t t') (hagree : Agree S Eq o o') :
    Agree S' Eq p p' := by
  cases hagree with
  | value _ hs hv =>
    cases h with
    | value _ ht hw =>
      cases h' with
      | value _ ht' hw' => exact .value le_rfl (hS ht ht' hs) (hw.symm.trans (hv.trans hw'))
  | fault _ hs =>
    cases h with
    | fault _ ht =>
      cases h' with
      | fault _ ht' => exact .fault le_rfl (hS ht ht' hs)
  | unfinished _ hs =>
    cases h with
    | unfinished _ ht =>
      cases h' with
      | unfinished _ ht' => exact .unfinished le_rfl (hS ht ht' hs)

/-- However results are presented, they are the same. -/
theorem results_do_not_depend_on_presentation (limits : Limits) (disk : Disk)
    (texts : List (String × String)) (console console' : Console) (settings settings' : Settings)
    (hout : console.out.Open) (hout' : console'.out.Open)
    (htext : console.out.text = console'.out.text) :
    (let run := (Session.initial .functional console limits settings).runTexts disk texts
     let run' := (Session.initial .functional console' limits settings').runTexts disk texts
     Functional.Memory.binds Trace.countName run.state.machine.memory = false →
       SameResults (settings.echo = settings'.echo) run run') ∧
    (let watched := (Procedural.watchedTwin.session console limits settings).runTexts disk texts
     let run := (Session.initial .procedural console limits settings).runTexts disk texts
     let run' := (Session.initial .procedural console' limits settings').runTexts disk texts
     Agree (fun s' s => Procedural.watchedTwin.plain s' = s) Eq watched run ∧
       (Procedural.binds Trace.countName watched.state.machine.memory = false →
         SameResults (settings.echo = settings'.echo) run run')) := by
  have halike : console.out.Alike (settings.echo = settings'.echo) console'.out :=
    ⟨hout, hout', fun _ => htext⟩
  constructor
  · intro run run' hbinds
    have hrun := presents_initial Language.presentable_functional trivial halike limits disk texts
      (ne_true_of_eq_false hbinds)
    exact hrun.forget (fun _ s s' hs => ⟨hs.machine.memory, hs.machine.out.text⟩) fun _ _ _ hv => hv
  · intro watched run run'
    -- the journal changes nothing, so what holds of sessions with a journal holds without
    have hplain := (Procedural.argumentsKept_runTexts console limits settings disk texts).1
    have hplain' := (Procedural.argumentsKept_runTexts console' limits settings' disk texts).1
    refine ⟨hplain, fun hbinds => ?_⟩
    have hrun := presents_initial Language.presentable_watched rfl halike limits disk texts
      (ne_true_of_eq_false hbinds)
    refine agree_along hplain hplain' ?_ hrun
    rintro s s' _ _ rfl rfl hs
    exact ⟨congrArg Journaled.memory hs.machine.memory, hs.machine.out.text⟩

/-- A function that prints, an error, a file that is not there and a test that fails: with a
console on which all works and an echo, and with a console that can do nothing but print and
no echo. -/
theorem results_do_not_depend_on_presentation_broken_console :
    let limits : Limits := ⟨9, 9⟩
    let disk : Disk := ⟨[], some⟩
    let texts := [("a", "(define f (x) (print x)) (f 1) (g 2)"),
      ("b", "(check-expect (f 3) 4) (use c)")]
    let broken : Console :=
      ⟨⟨"", .never, .always "full"⟩, ⟨"", .always ⟨"full", 0⟩, .always "full"⟩⟩
    (let run := (Session.initial .functional .empty limits ⟨.on, .shown⟩).runTexts disk texts
     let run' := (Session.initial .functional broken limits ⟨.off, .hidden⟩).runTexts disk texts
     run.value? = some [⟨1, 0, 0⟩, ⟨1, 1, 0⟩] ∧
       Functional.Memory.binds Trace.countName run.state.machine.memory = false ∧
       SameResults (Echo.on = .off) run run') ∧
    (let watched := (Procedural.watchedTwin.session .empty limits ⟨.on, .shown⟩).runTexts disk texts
     let run := (Session.initial .procedural .empty limits ⟨.on, .shown⟩).runTexts disk texts
     let run' := (Session.initial .procedural broken limits ⟨.off, .hidden⟩).runTexts disk texts
     run.value? = some [⟨1, 0, 0⟩, ⟨1, 1, 0⟩] ∧
       Procedural.binds Trace.countName watched.state.machine.memory = false ∧
       SameResults (Echo.on = .off) run run') := by
  intro limits disk texts broken
  have hfunctional : Functional.Memory.binds Trace.countName ((Session.initial .functional .empty
      limits ⟨.on, .shown⟩).runTexts disk texts).state.machine.memory = false := by
    decide +kernel
  have hprocedural : Procedural.binds Trace.countName ((Procedural.watchedTwin.session .empty
      limits ⟨.on, .shown⟩).runTexts disk texts).state.machine.memory = false := by
    decide +kernel
  have hsame := results_do_not_depend_on_presentation limits disk texts .empty broken ⟨.on, .shown⟩
    ⟨.off, .hidden⟩ Plan.never_clear Plan.never_clear rfl
  exact ⟨⟨by decide +kernel, hfunctional, hsame.1 hfunctional⟩,
    by decide +kernel, hprocedural, hsame.2.2 hprocedural⟩

end Primer
