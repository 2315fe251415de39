/-
Primer/Proofs/Nesting.lean

Files that use files.

Running a file may run further files, these may run others, and nothing in the
texts keeps the files from using each other in circles.  What ends this is that a file
in progress is not run again: the files in progress are pairwise different
files of the disk, of which there are finitely many.

`runFile` bounds the nesting by the number of files.  The bound is never
reached: a file that is not in progress leaves one file fewer for the runs
inside it (`idle_lt`), so the bound can be left out of account
(`runFile_eq`).

To speak of a moment in the course of a run we need more than the state at its
end.  `ComesTo` tells what a unit itself comes to: the things that were read, one
after the other, and then its tests.  `Passes` follows it into the files that
it uses, and keeps note of them.  This account knows nothing of the list of
files in progress that the session keeps, so that the two can be compared
(`Passes.active`).  A property of the machine that is kept by all that texts can have a
session do holds at each of these moments (`Passes.machine`).
-/
import Mathlib.Data.List.Dedup
import Primer.Proofs.Lockstep
import Primer.Proofs.Units

namespace Primer

open Outcome

/-- A file that can be opened is one of the disk. -/
theorem Disk.mem_of_open? {disk : Disk} {path : String} {doc : Document}
    (h : disk.open? path = some doc) : doc ∈ disk.documents := by
  obtain ⟨id, -, hfind⟩ := Option.bind_eq_some_iff.1 h
  exact List.mem_of_find?_eq_some hfind

/-- The files of a disk, each once however many paths lead to it. -/
def Disk.identities (disk : Disk) : List String := (disk.documents.map Document.identity).dedup

namespace Session

variable {L : Language}

/-! ### The bound on nesting -/

/-- How many files of the disk are not in progress. -/
def idle (disk : Disk) (active : List String) : Nat :=
  (disk.documents.filter fun doc => doc.identity ∉ active).length

theorem idle_lt {disk : Disk} {path : String} {doc : Document} {active : List String}
    (hopen : disk.open? path = some doc) (hidle : doc.identity ∉ active) :
    idle disk (active ++ [doc.identity]) < idle disk active := by
  have hfilter : disk.documents.filter (fun d => d.identity ∉ active ++ [doc.identity])
      = (disk.documents.filter fun d => d.identity ∉ active).filter
          fun d => d.identity ≠ doc.identity := by
    rw [List.filter_filter]
    refine List.filter_congr fun d _ => ?_
    simp [Bool.and_comm]
  rw [idle, hfilter]
  refine List.length_filter_lt_length_iff_exists.2 ⟨doc, ?_, by simp⟩
  simpa [Disk.mem_of_open? hopen] using hidle

theorem idle_lt_nesting (disk : Disk) (active : List String) : idle disk active < nesting disk :=
  Nat.lt_succ_of_le (List.length_filter_le _ _)

/-- The files in progress are these. -/
def Running (active : List String) (s : Session L) : Prop := s.active = active

theorem kept_running (active : List String) : Kept (L := L) (Running active) :=
  .of_machine (fun _ _ h => h) fun _ h => h

theorem leaves_running (disk : Disk) (bound : Nat) {active : List String} (path : String)
    {s : Session L} (hs : Running active s) :
    Leaves (Running active) (runFileWithin disk bound path s) := by
  have hend := (SameSurroundings.runFileWithin disk bound path s).active
  revert hend
  cases runFileWithin disk bound path s with
  | value summary s' => exact fun hend => hend.trans hs
  | fault e s' => exact fun hend => hend.trans hs
  | unfinished s' => exact fun _ => trivial

section Congruence

variable {P : Session L → Prop}
variable {useFile useFile' : String → Session L → Outcome (Session L) Summary}

theorem runEntry_congr (entry : Entry) (tally : Tally L) {s : Session L}
    (h : ∀ file, useFile file s = useFile' file s) :
    runEntry useFile entry tally s = runEntry useFile' entry tally s := by
  unfold runEntry
  cases entry.result with
  | error e => rfl
  | ok d =>
    dsimp only
    cases L.recognise d with
    | error e => rfl
    | ok form =>
      cases form with
      | definition d => rfl
      | use file => simp only [runForm, h file]
      | test t => rfl

/-- Two ways to run files that are the same on all sessions with a property that is kept
make no difference to a unit. -/
theorem runUnit_congr (hP : Kept P) (huse : ∀ file s, P s → Leaves P (useFile file s))
    (h : ∀ file s, P s → useFile file s = useFile' file s) (source text : String)
    {s : Session L} (hs : P s) :
    runUnit useFile source text s = runUnit useFile' source text s := by
  have hentries : ∀ (entries : List Entry) (tally : Tally L) (s : Session L), P s →
      runEntries useFile entries tally s = runEntries useFile' entries tally s := by
    intro entries
    induction entries with
    | nil => exact fun _ _ _ => rfl
    | cons entry entries ih =>
      intro tally s hs
      have hkept := hP.settles_runEntry huse entry (fun _ _ => trivial) tally hs
      rw [runEntries, runEntries, ← runEntry_congr entry tally fun file => h file s hs]
      revert hkept
      cases runEntry useFile entry tally s with
      | value tally₁ s₁ => exact fun hs₁ => ih tally₁ s₁ hs₁
      | fault e s₁ => exact fun _ => rfl
      | unfinished s₁ => exact fun _ => rfl
  rw [runUnit, runUnit, hentries _ _ s hs]

end Congruence

/-- Any two bounds above the number of files that are not in progress do the same. -/
theorem runFileWithin_eq (disk : Disk) {bound bound' : Nat} (path : String) (s : Session L)
    (h : idle disk s.active < bound) (h' : idle disk s.active < bound') :
    runFileWithin disk bound path s = runFileWithin disk bound' path s := by
  induction bound generalizing bound' path s with
  | zero => omega
  | succ bound ih =>
    obtain ⟨bound', rfl⟩ : ∃ k, bound' = k + 1 := ⟨bound' - 1, by omega⟩
    unfold runFileWithin
    cases hopen : disk.open? path with
    | none => rfl
    | some doc =>
      dsimp only
      split
      · rfl
      · next hidle =>
        have hlt := idle_lt hopen (by simpa using hidle)
        congr 1
        refine runUnit_congr (kept_running (s.active ++ [doc.identity]))
          (fun file s hs => leaves_running disk bound file hs) (fun file s' hs' => ?_) _ _ rfl
        rw [Running] at hs'
        exact ih file s' (by rw [hs']; omega) (by rw [hs']; omega)

/-- The session that begins to run a file. -/
def entering (s : Session L) (doc : Document) : Session L :=
  { s with active := s.active ++ [doc.identity] }

/-- The session that has run a file: the one that was begun last is over. -/
def leaving (s : Session L) : Session L := { s with active := s.active.dropLast }

/-- That a file is in progress already. -/
def circular (path : String) : Error := .failure ("use of file \"" ++ path ++ "\" is circular")

def unreadable (path : String) : Error := .failure ("cannot open file \"" ++ path ++ "\"")

/-- Run a file through its text: a file that cannot be read or is in progress is refused,
and otherwise its text is run by a session that has the file in progress. -/
def runFileText (disk : Disk) (path : String) (s : Session L) : Outcome (Session L) Summary :=
  match disk.open? path with
  | none => .fault (unreadable path) s
  | some doc =>
      if doc.identity ∈ s.active then .fault (circular path) s
      else ((s.entering doc).runSource disk path doc.text).mapState leaving

/-- To run a file is to run its text, in which files are run in the same way, with no bound
on how deeply they are nested. -/
theorem runFile_eq (disk : Disk) (path : String) (s : Session L) :
    s.runFile disk path = s.runFileText disk path := by
  rw [runFile, nesting, runFileWithin, runFileText]
  cases hopen : disk.open? path with
  | none => rfl
  | some doc =>
    simp only [List.contains_iff_mem]
    split
    · rfl
    · next hidle =>
      have hlt := idle_lt hopen hidle
      have hle := idle_lt_nesting disk s.active
      rw [nesting] at hle
      show Outcome.mapState leaving _ = _
      congr 1
      refine runUnit_congr (kept_running (s.active ++ [doc.identity]))
        (fun file s hs => leaves_running disk _ file hs) (fun file s' hs' => ?_) _ _ rfl
      rw [Running] at hs'
      exact runFileWithin_eq disk file s' (by rw [hs']; omega) (by rw [nesting, hs']; omega)

theorem settles_runSource (disk : Disk) (source text : String) (s : Session L) :
    Settles (Running s.active) (s.runSource disk source text) :=
  (kept_running s.active).settles_runUnit (fun _ _ => trivial)
    (fun file _ hs => leaves_running disk _ file hs) source text rfl

/-- A unit does not end in an error. -/
theorem runSource_ne_fault (disk : Disk) (source text : String) (s : Session L) (e : Error)
    (s' : Session L) : s.runSource disk source text ≠ .fault e s' := by
  have hunit := settles_runSource disk source text s
  intro h
  rw [h] at hunit
  exact hunit

/-- A file that can be read is refused exactly if it is in progress. -/
theorem runFile_eq_circular_iff {disk : Disk} {path : String} {doc : Document} {s : Session L}
    (hopen : disk.open? path = some doc) :
    s.runFile disk path = .fault (circular path) s ↔ doc.identity ∈ s.active := by
  rw [runFile_eq, runFileText, hopen]
  dsimp only
  split
  · next h => simp [h]
  · next h =>
    simp only [h, iff_false]
    have hunit := runSource_ne_fault disk path doc.text (s.entering doc)
    revert hunit
    cases (s.entering doc).runSource disk path doc.text with
    | value summary s' => simp [Outcome.mapState]
    | fault e s' => exact fun hunit => absurd rfl (hunit e s')
    | unfinished s' => simp [Outcome.mapState]

/-! ### Moments of a run -/

/-- What a session is about to do. -/
inductive Task (L : Language) where
  /-- go on with what was read at some place -/
  | read (entry : Entry)
  /-- run a test, after all that was read -/
  | test (t : UnitTest L.Exp)

/-- What a unit comes to by itself, begun in the session `s`: the next task, and the session
by then. -/
inductive ComesTo (disk : Disk) (source text : String) (s : Session L) :
    Task L → Session L → Prop
  | read {before after : List Entry} {entry : Entry} {tally : Tally L} {s' : Session L} :
      readAll source text = before ++ entry :: after →
      runEntries (runFile disk) before .zero s = .value tally s' →
        ComesTo disk source text s (.read entry) s'
  | test {before after : List (UnitTest L.Exp)} {t : UnitTest L.Exp} {tally : Tally L}
      {counts : Nat × Summary} {s₁ s' : Session L} :
      runEntries (runFile disk) (readAll source text) .zero s = .value tally s₁ →
      tally.tests.reverse = before ++ t :: after →
      countPassed 0 tally.summary before { s₁ with mode := .testing } = .value counts s' →
        ComesTo disk source text s (.test t) s'

/-- What comes in the course of a unit begun in the session `s`, with the files that are
being run by then on its account, outermost first. -/
inductive Passes (disk : Disk) : (source text : String) → Session L →
    List Document → Task L → Session L → Prop
  | here {source text : String} {s s' : Session L} {task : Task L} :
      ComesTo disk source text s task s' → Passes disk source text s [] task s'
  | inside {source text file : String} {s s₁ s' : Session L} {entry : Entry} {doc : Document}
      {docs : List Document} {task : Task L} :
      ComesTo disk source text s (.read entry) s₁ → L.form? entry = some (.use file) →
      disk.open? file = some doc → doc.identity ∉ s₁.active →
      Passes disk file doc.text (s₁.entering doc) docs task s' →
        Passes disk source text s (doc :: docs) task s'

variable {disk : Disk} {source text : String} {s s' : Session L} {task : Task L}
  {docs : List Document}

/-- The first thing that a unit comes to, with nothing done before. -/
theorem comesTo_first {entry : Entry} {after : List Entry}
    (h : readAll source text = entry :: after) : ComesTo disk source text s (.read entry) s :=
  have hsplit : readAll source text = [] ++ entry :: after := h
  .read hsplit rfl

theorem surroundings_runFile (disk : Disk) (file : String) (s : Session L) :
    s.SameSurroundings (s.runFile disk file).state :=
  .runFileWithin disk _ file s

/-- Files leave the list of files in progress as they found it. -/
theorem leaves_runFile (disk : Disk) (s : Session L) (file : String) (t : Session L)
    (ht : Running s.active t) : Leaves (Running s.active) (t.runFile disk file) :=
  leaves_running disk _ file ht

theorem ComesTo.active (h : ComesTo disk source text s task s') : s'.active = s.active := by
  cases h with
  | @read before _ _ _ _ _ hbefore =>
    have hsame := SameSurroundings.runEntries (surroundings_runFile disk) (.refl s) before .zero
    rw [hbefore] at hsame
    exact hsame.active
  | @test before _ _ tally _ s₁ _ hentries _ hbefore =>
    have hsame := SameSurroundings.runEntries (surroundings_runFile disk) (.refl s)
      (readAll source text) .zero
    rw [hentries] at hsame
    have htests : s.SameSurroundings { s₁ with mode := .testing } :=
      ⟨hsame.limits, hsame.settings, hsame.active⟩
    have hcount := htests.countPassed before 0 tally.summary
    rw [hbefore] at hcount
    exact hcount.active

namespace Passes

/-- The session's list of files in progress is that of the files being run. -/
theorem active (h : Passes disk source text s docs task s') :
    s'.active = s.active ++ docs.map Document.identity := by
  induction h with
  | here hcomes => simpa using hcomes.active
  | @inside source text file s s₁ s' entry doc docs task hcomes _ _ _ _ ih =>
    rw [ih, entering, hcomes.active]
    simp

theorem mem_documents (h : Passes disk source text s docs task s') :
    ∀ doc ∈ docs, doc ∈ disk.documents := by
  induction h with
  | here => simp
  | inside _ _ hopen _ _ ih => exact List.forall_mem_cons.2 ⟨Disk.mem_of_open? hopen, ih⟩

/-- No file is in progress twice. -/
theorem nodup (h : Passes disk source text s docs task s') (hs : s.active.Nodup) :
    s'.active.Nodup := by
  induction h with
  | here hcomes => rwa [hcomes.active]
  | @inside source text file s s₁ s' entry doc docs task hcomes _ _ hidle _ ih =>
    rw [hcomes.active] at hidle
    refine ih ?_
    rw [entering, hcomes.active]
    refine List.nodup_append.2 ⟨hs, List.nodup_singleton _, ?_⟩
    rintro id hid _ hdoc rfl
    exact hidle (List.mem_singleton.1 hdoc ▸ hid)

/-- There are at most as many files in progress as there are files. -/
theorem length_le (h : Passes disk source text s docs task s') (hs : s.active.Nodup)
    (hdisk : s.active ⊆ disk.identities) : s'.active.length ≤ disk.identities.length := by
  refine List.Nodup.length_le_of_subset (h.nodup hs) fun id hid => ?_
  rw [h.active] at hid
  rcases List.mem_append.1 hid with hid | hid
  · exact hdisk hid
  · obtain ⟨doc, hdoc, rfl⟩ := List.mem_map.1 hid
    exact List.mem_dedup.2 (List.mem_map_of_mem (h.mem_documents doc hdoc))

end Passes

/-- The form that a task is about, if it is about one. -/
def Task.form? : Task L → Option (Form L.Exp L.Function)
  | .read entry => L.form? entry
  | .test t => some (.test t)

/-- What a unit comes to was read from a text. -/
theorem ComesTo.reads (h : ComesTo disk source text s task s') :
    ∀ form ∈ task.form?, L.Reads form := by
  have hread : ∀ entry ∈ readAll source text, ∀ form ∈ L.form? entry, L.Reads form :=
    fun entry hentry form hform => ⟨source, text, entry, hentry, hform⟩
  intro form hform
  cases h with
  | @read before after entry _ _ hsplit _ =>
    exact hread entry (by simp [hsplit]) form hform
  | @test before after t tally _ _ _ hentries hsplit _ =>
    cases hform
    exact mem_of_runEntries hentries hread t (by simp [hsplit])

theorem Passes.reads (h : Passes disk source text s docs task s') :
    ∀ form ∈ task.form?, L.Reads form := by
  induction h with
  | here hcomes => exact hcomes.reads
  | inside _ _ _ _ _ ih => exact ih

/-! ### What the machine keeps -/

section

variable {Q : Machine L.Memory → Prop}

/-- A property of machines that is kept by all that a text can have a session do. -/
structure KeptByReading (Q : Machine L.Memory → Prop) : Prop where
  define : ∀ limits echo d m, L.Reads (.definition d) → Q m → Leaves Q (L.define limits echo d m)
  eval : ∀ limits t e m, L.Reads (.test t) → e ∈ t.exps → Q m → Leaves Q (L.eval limits e m)
  console : ∀ m c, Q m → Q { m with console := c }
  reset : ∀ m, Q m → Q m.resetTrace

theorem KeptByReading.keptByForms (hQ : KeptByReading Q) :
    KeptByForms L.Reads fun s => Q s.machine where
  define s d hd hs := hQ.define s.limits s.settings.echo d s.machine hd hs
  eval s t e ht he hs := hQ.eval s.limits t e s.machine ht he hs
  console s c hs := hQ.console s.machine c hs
  reset s hs := hQ.reset s.machine hs
  normal _ hs := hs

/-- What every definition and every evaluation keeps is kept. -/
theorem Kept.keptByReading (h : Kept fun s : Session L => Q s.machine) : KeptByReading Q where
  define limits echo d m _ hm := h.define ⟨m, limits, ⟨echo, .shown⟩, .normal, []⟩ d trivial hm
  eval limits t e m _ he hm := h.eval ⟨m, limits, ⟨.on, .shown⟩, .normal, []⟩ t e trivial he hm
  console m c hm := h.console ⟨m, ⟨0, 0⟩, ⟨.on, .shown⟩, .normal, []⟩ c hm
  reset m hm := h.reset ⟨m, ⟨0, 0⟩, ⟨.on, .shown⟩, .normal, []⟩ hm

theorem KeptByReading.leaves_runFile (hQ : KeptByReading Q) (disk : Disk) (file : String)
    (s : Session L) (hs : Q s.machine) : Leaves (fun s => Q s.machine) (s.runFile disk file) :=
  hQ.keptByForms.leaves_runFileWithin (fun _ h => h) (fun _ _ h => h) disk _ file hs

theorem KeptByReading.settles_runSource (hQ : KeptByReading Q) (disk : Disk)
    (source text : String) {s : Session L} (hs : Q s.machine) :
    Settles (fun s => Q s.machine) (s.runSource disk source text) :=
  hQ.keptByForms.settles_runUnit (fun _ h => h) (hQ.leaves_runFile disk) source text hs

theorem ComesTo.machine (hQ : KeptByReading Q) (h : ComesTo disk source text s task s')
    (hs : Q s.machine) : Q s'.machine := by
  have hread : ∀ entry ∈ readAll source text, ∀ form ∈ L.form? entry, L.Reads form :=
    fun entry hentry form hform => ⟨source, text, entry, hentry, hform⟩
  have hkept := hQ.keptByForms
  cases h with
  | @read before after _ _ _ hsplit hbefore =>
    have hentries : ∀ entry ∈ before, ∀ form ∈ L.form? entry, L.Reads form :=
      fun entry hentry => hread entry (by simp [hsplit, hentry])
    exact (hkept.settles_runEntries (hQ.leaves_runFile disk) _ hentries _ hs).of_value hbefore
  | @test before after _ tally _ s₁ _ hentries hsplit hbefore =>
    have h₁ : Q s₁.machine :=
      (hkept.settles_runEntries (hQ.leaves_runFile disk) _ hread _ hs).of_value hentries
    have htests : ∀ t ∈ before, L.Reads (.test t) := fun t ht =>
      mem_of_runEntries hentries hread t (by simp [hsplit, ht])
    have htesting : Q { s₁ with mode := .testing }.machine := h₁
    exact (hkept.settles_countPassed htests 0 tally.summary htesting).of_value hbefore

/-- Whatever a unit comes to, in the files that it uses as well, the machine has by then what
reading keeps. -/
theorem Passes.machine (hQ : KeptByReading Q) (h : Passes disk source text s docs task s')
    (hs : Q s.machine) : Q s'.machine := by
  induction h with
  | here hcomes => exact hcomes.machine hQ hs
  | inside hcomes _ _ _ _ ih =>
    have h₁ := hcomes.machine hQ hs
    exact ih h₁

end

/-! ### Runs come to an end -/

/-- Whether a task ends by itself.  The file of a `use` is not counted in: what is done
there are tasks of their own. -/
def Task.Ends (task : Task L) (s : Session L) : Prop :=
  match task with
  | .read entry => ∀ d, L.form? entry = some (.definition d) →
      (L.define s.limits s.settings.echo d s.machine).finished = true
  | .test t => ∀ summary, (s.runTest t summary).finished = true

/-- In the course of a unit each single form and each test ends. -/
def EachEnds (disk : Disk) (source text : String) (s : Session L) : Prop :=
  ∀ docs task s', Passes disk source text s docs task s' → task.Ends s'

/-- Each task belongs to the text itself or to that of a file. -/
theorem Passes.comesTo (h : Passes disk source text s docs task s') :
    ∃ source' text' s₁, ComesTo disk source' text' s₁ task s' ∧
      (text' = text ∨ ∃ doc ∈ disk.documents, text' = doc.text) := by
  induction h with
  | here hcomes => exact ⟨_, _, _, hcomes, .inl rfl⟩
  | @inside source text file s s₁ s' entry doc docs task _ _ hopen _ _ ih =>
    obtain ⟨source', text', s₂, hcomes, htext⟩ := ih
    refine ⟨source', text', s₂, hcomes, .inr ?_⟩
    rcases htext with rfl | hfile
    · exact ⟨doc, Disk.mem_of_open? hopen, rfl⟩
    · exact hfile

/-- Forms and tests that end from every state end where they are come to. -/
theorem eachEnds_of_forall
    (h : ∀ source' text', (text' = text ∨ ∃ doc ∈ disk.documents, text' = doc.text) →
      (∀ entry ∈ readAll source' text', ∀ s : Session L, (Task.read entry).Ends s) ∧
        ∀ t ∈ L.tests (readAll source' text'), ∀ s : Session L, (Task.test t).Ends s) :
    EachEnds disk source text s := by
  intro docs task s' hpasses
  obtain ⟨source', text', s₁, hcomes, htext⟩ := hpasses.comesTo
  cases hcomes with
  | read hread _ => exact (h source' text' htext).1 _ (by simp [hread]) s'
  | test hentries htests _ =>
    have hsplit := (tests_runEntries hentries).symm.trans htests
    rw [Tally.zero, List.reverse_nil, List.nil_append] at hsplit
    exact (h source' text' htext).2 _ (by simp [hsplit]) s'

theorem exists_value_of_finished {σ α : Type} {P : σ → Prop} {o : Outcome σ α} (h : Settles P o)
    (ho : o.finished = true) : ∃ a s, o = .value a s := by
  cases o with
  | value a s => exact ⟨a, s, rfl⟩
  | fault e s => exact h.elim
  | unfinished s => cases ho

theorem finished_runEntry {useFile : String → Session L → Outcome (Session L) Summary}
    {entry : Entry} (hends : (Task.read entry).Ends s)
    (huse : ∀ file, L.form? entry = some (.use file) → (useFile file s).finished = true)
    (tally : Tally L) : (runEntry useFile entry tally s).finished = true := by
  unfold runEntry
  unfold Task.Ends Language.form? at hends
  unfold Language.form? at huse
  cases hresult : entry.result with
  | error e => rfl
  | ok d =>
    simp only [hresult] at hends huse ⊢
    cases hd : L.recognise d with
    | error e => rfl
    | ok form =>
      simp only [hd, Except.toOption, Option.some.injEq] at hends huse ⊢
      cases form with
      | definition d =>
        have hdefine := hends d rfl
        simp only [runForm]
        revert hdefine
        cases L.define s.limits s.settings.echo d s.machine with
        | value _ m => exact fun _ => rfl
        | fault e m => exact fun _ => rfl
        | unfinished m =>
          intro h
          cases h
      | use file =>
        have hfile := huse file rfl
        simp only [runForm]
        revert hfile
        cases useFile file s with
        | value nested s => exact fun _ => rfl
        | fault e s => exact fun _ => rfl
        | unfinished s =>
          intro h
          cases h
      | test t => rfl

/-- The forms of a unit come to their end if each of them does, and the files do that are
used.  By induction on the forms that are left. -/
theorem finished_runEntries
    (hends : ∀ entry t, ComesTo disk source text s (.read entry) t → (Task.read entry).Ends t)
    (huse : ∀ entry file t, ComesTo disk source text s (.read entry) t →
      L.form? entry = some (.use file) → (t.runFile disk file).finished = true)
    (before after : List Entry) (tally : Tally L) (t : Session L)
    (hread : readAll source text = before ++ after)
    (hbefore : runEntries (runFile disk) before .zero s = .value tally t) :
    (runEntries (runFile disk) after tally t).finished = true := by
  induction after generalizing before tally t with
  | nil => rfl
  | cons entry after ih =>
    have hcomes : ComesTo disk source text s (.read entry) t := .read hread hbefore
    have hentry : (runEntry (runFile disk) entry tally t).finished = true :=
      finished_runEntry (hends entry t hcomes) (fun file => huse entry file t hcomes) tally
    have hsettles := (kept_running t.active).settles_runEntry (leaves_runFile disk t)
      entry (fun _ _ => trivial) tally rfl
    obtain ⟨tally₁, t₁, h₁⟩ := exists_value_of_finished hsettles hentry
    rw [runEntries, h₁, andThen_value]
    refine ih (before ++ [entry]) tally₁ t₁ (by rw [hread, List.append_assoc]; rfl) ?_
    rw [runEntries_append, hbefore, andThen_value, runEntries, h₁]
    rfl

/-- The same for the tests of a unit. -/
theorem finished_countPassed {tests : List (UnitTest L.Exp)} {summary : Summary}
    (hends : ∀ before after t counts s₁, tests = before ++ t :: after →
      countPassed 0 summary before s = .value counts s₁ → (Task.test t).Ends s₁)
    (before after : List (UnitTest L.Exp)) (counts : Nat × Summary) (s₁ : Session L)
    (htests : tests = before ++ after)
    (hbefore : countPassed 0 summary before s = .value counts s₁) :
    (countPassed counts.1 counts.2 after s₁).finished = true := by
  induction after generalizing before counts s₁ with
  | nil => rfl
  | cons t after ih =>
    have htest := hends before after t counts s₁ htests hbefore counts.2
    have hsettles := (kept_running s₁.active).settles_runTest (t := t) trivial counts.2 rfl
    obtain ⟨⟨verdict, summary'⟩, s₂, h₂⟩ := exists_value_of_finished hsettles htest
    have hsnoc : countPassed 0 summary (before ++ [t]) s
        = countPassed counts.1 counts.2 [t] s₁ := by
      rw [countPassed_append, hbefore, andThen_value]
    rw [countPassed, h₂] at hsnoc
    rw [countPassed, h₂, andThen_value]
    cases verdict with
    | passed => exact ih (before ++ [t]) (counts.1 + 1, summary') s₂ (by simp [htests]) hsnoc
    | failed message => exact ih (before ++ [t]) (counts.1, summary') _ (by simp [htests]) hsnoc

/-- **A unit comes to its end if all that is done in its course does.**  By induction on
the number of files that are not in progress. -/
theorem finished_runSource (h : EachEnds disk source text s) :
    (s.runSource disk source text).finished = true := by
  induction hn : idle disk s.active using Nat.strongRecOn generalizing source text s with
  | ind n ih =>
    subst hn
    have huse : ∀ entry file t, ComesTo disk source text s (.read entry) t →
        L.form? entry = some (.use file) → (t.runFile disk file).finished = true := by
      intro entry file t hcomes hfile
      rw [runFile_eq, runFileText]
      cases hopen : disk.open? file with
      | none => rfl
      | some doc =>
        dsimp only
        split
        · rfl
        · next hidle =>
          rw [finished_mapState]
          refine ih _ ?_ (fun docs task s' hpasses => ?_) rfl
          · rw [← hcomes.active]
            exact idle_lt hopen hidle
          · exact h _ _ _ (.inside hcomes hfile hopen hidle hpasses)
    have hentries : (runEntries (runFile disk) (readAll source text) .zero s).finished = true :=
      finished_runEntries (fun entry t hcomes => h _ _ _ (.here hcomes)) huse [] _ .zero s rfl rfl
    have hsettles := (kept_running s.active).settles_runEntries (leaves_runFile disk s)
      (readAll source text) (fun _ _ _ _ => trivial) .zero rfl
    obtain ⟨tally, s₁, h₁⟩ := exists_value_of_finished hsettles hentries
    have hunit : s.runSource disk source text
        = runTests tally.tests.reverse tally.summary s₁ := by
      rw [runSource, runUnit]
      exact congrArg (Outcome.andThen · _) h₁
    rw [hunit, runTests]
    split
    · rfl
    · have htests : (countPassed 0 tally.summary tally.tests.reverse
          { s₁ with mode := .testing }).finished = true :=
        finished_countPassed (fun before after t counts s₂ hsplit hbefore =>
          h _ _ _ (.here (.test h₁ hsplit hbefore))) [] _ (0, tally.summary) _ rfl rfl
      revert htests
      cases countPassed 0 tally.summary tally.tests.reverse { s₁ with mode := .testing } with
      | value passed s₂ => exact fun _ => rfl
      | fault e s₂ => exact fun _ => rfl
      | unfinished s₂ =>
        intro h
        cases h

/-- The same for a file.  Where the file is refused nothing is run. -/
theorem finished_runFile {path : String}
    (h : ∀ doc, disk.open? path = some doc → doc.identity ∉ s.active →
      EachEnds disk path doc.text (s.entering doc)) : (s.runFile disk path).finished = true := by
  rw [runFile_eq, runFileText]
  cases hopen : disk.open? path with
  | none => rfl
  | some doc =>
    dsimp only
    split
    · rfl
    · next hidle =>
      rw [finished_mapState]
      exact finished_runSource (h doc hopen hidle)

/-- **To use files always comes to an end, however they use each other.**  For every session,
on a disk of finitely many files:

* a text is run to its end if each single form and each test does end that is come to in the
  course of the run, and the same holds for a file;
* a file that is run is run as a text, by a session that has it in progress as well, so that
  what is come to inside a file is what is come to in the course of that run;
* whenever something is come to, the session's list of files in progress consists of the files
  from before and of those being run, outermost first; it has no file twice, and so never more
  files than there are; and a file that can be read is refused as circular exactly if it is
  one of these;
* after a file, whether it was run or refused, the list is what it was before, and after its
  text it is the list with the file at its end, which is then taken off. -/
theorem use_comes_to_an_end (disk : Disk) (s : Session L) :
    (∀ source text, EachEnds disk source text s →
      ∃ summary s', s.runSource disk source text = .value summary s') ∧
    (∀ path, (∀ doc, disk.open? path = some doc → doc.identity ∉ s.active →
        EachEnds disk path doc.text (s.entering doc)) →
      (s.runFile disk path).finished = true) ∧
    (∀ path (t : Session L), t.runFile disk path = t.runFileText disk path) ∧
    (∀ source text docs task s', Passes disk source text s docs task s' →
      s'.active = s.active ++ docs.map Document.identity ∧
      (s.active.Nodup → s'.active.Nodup ∧
        (s.active ⊆ disk.identities → s'.active.length ≤ disk.identities.length)) ∧
      ∀ path doc, disk.open? path = some doc →
        (s'.runFile disk path
            = .fault (.failure ("use of file \"" ++ path ++ "\" is circular")) s' ↔
          doc.identity ∈ s.active ++ docs.map Document.identity)) ∧
    (∀ path, (s.runFile disk path).state.active = s.active) ∧
    ∀ source text, (s.runSource disk source text).state.active = s.active := by
  refine ⟨fun source text h => ?_, fun path h => finished_runFile h, runFile_eq disk,
    fun source text docs task s' hpasses => ⟨hpasses.active, fun hs => ⟨hpasses.nodup hs,
      hpasses.length_le hs⟩, fun path doc hopen => ?_⟩,
    fun path => (surroundings_runFile disk path s).active,
    fun source text => (SameSurroundings.runUnit (surroundings_runFile disk) s source text).active⟩
  · exact exists_value_of_finished (settles_runSource disk source text s) (finished_runSource h)
  · rw [← hpasses.active]
    exact runFile_eq_circular_iff hopen

/-- Two files that use each other, one of them under two names.  A text that uses the first
one twice comes to its end; when the second file is being run, the first one is refused. -/
theorem use_comes_to_an_end_circle :
    let a : Document := ⟨"a", "(use b) (val x #t)"⟩
    let b : Document := ⟨"b", "(use ./a)"⟩
    let disk : Disk := ⟨[a, b], fun path => some (if path = "./a" then "a" else path)⟩
    let s := Session.initial .functional .empty ⟨9, 9⟩ ⟨.on, .shown⟩
    let run := s.runSource disk "u" "(use a) (use a)"
    let s' := (s.entering a).entering b
    (EachEnds disk "u" "(use a) (use a)" s ∧ (∃ summary s', run = .value summary s') ∧
      run.value? = some ⟨2, 0, 0⟩) ∧
    (∃ entry, Passes disk "u" "(use a) (use a)" s [a, b] (.read entry) s') ∧
      s'.active = ["a", "b"] ∧ s'.active.Nodup ∧
      s'.runFile disk "./a" = .fault (.failure "use of file \"./a\" is circular") s' := by
  intro a b disk s run s'
  let use (path : String) (source : String) : Entry :=
    ⟨⟨source, 1⟩, .ok (.list [.symbol "use", .symbol path])⟩
  let val (source : String) : Entry :=
    ⟨⟨source, 1⟩, .ok (.list [.symbol "val", .symbol "x", .bool true])⟩
  have hread : ∀ source, readAll source "(use a) (use a)" = [use "a" source, use "a" source] :=
    fun source => rfl
  have hreada : ∀ source, readAll source "(use b) (val x #t)" = [use "b" source, val source] :=
    fun source => rfl
  have hreadb : ∀ source, readAll source "(use ./a)" = [use "./a" source] := fun source => rfl
  have huse : ∀ path source (t : Session Language.functional),
      (Task.read (use path source)).Ends t := by
    intro path source t d hd
    cases hd
  have hval : ∀ source (t : Session Language.functional), (Task.read (val source)).Ends t := by
    rintro source ⟨m, ⟨depth, turns⟩, ⟨echo, locations⟩, mode, active⟩ d hd
    cases hd
    cases depth with
    | zero => rfl
    | succ depth =>
      cases echo with
      | off => rfl
      | on =>
        show (((Machine.printLine _ _).map _).map _).finished = true
        rw [finished_map, finished_map, Machine.printLine, finished_mapState]
        exact Channel.finished_writeText _ _
  have hends : EachEnds disk "u" "(use a) (use a)" s := by
    refine eachEnds_of_forall fun source' text' htext => ?_
    have htexts : text' = "(use a) (use a)" ∨ text' = "(use b) (val x #t)" ∨
        text' = "(use ./a)" := by
      simpa [disk, a, b] using htext
    rcases htexts with rfl | rfl | rfl
    · rw [hread]
      refine ⟨by simp [huse], fun t ht => ?_⟩
      cases ht
    · rw [hreada]
      refine ⟨by simp [huse, hval], fun t ht => ?_⟩
      cases ht
    · rw [hreadb]
      refine ⟨by simp [huse], fun t ht => ?_⟩
      cases ht
  have hpasses : Passes disk "u" "(use a) (use a)" s [a, b] (.read (use "./a" "b")) s' := by
    have hfirst : ComesTo disk "u" "(use a) (use a)" s (.read (use "a" "u")) s :=
      comesTo_first (hread "u")
    have hsecond : ComesTo disk "a" a.text (s.entering a) (.read (use "b" "a")) (s.entering a) :=
      comesTo_first (hreada "a")
    have hthird : ComesTo disk "b" b.text s' (.read (use "./a" "b")) s' :=
      comesTo_first (hreadb "b")
    refine .inside hfirst rfl rfl (by decide) ?_
    exact .inside hsecond rfl rfl (by decide) (.here hthird)
  have hwhole := use_comes_to_an_end disk s
  obtain ⟨hactive, hnodup, hcircular⟩ := hwhole.2.2.2.1 _ _ _ _ _ hpasses
  refine ⟨⟨hends, hwhole.1 _ _ hends, by decide +kernel⟩, ⟨_, hpasses⟩, hactive,
    (hnodup List.nodup_nil).1, ?_⟩
  exact (hcircular "./a" a rfl).2 (by decide)

end Session

end Primer
