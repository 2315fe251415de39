/-
Primer/Proofs/Piped.lean

The shell on a text that is piped into it.

The shell takes the text line by line and runs what it has gathered as soon as that
is complete.  If nothing is wrong with the text as data, it comes to the same to run the
whole text at once (`piped_text_runs_as_one`):

* reports on interactive input do not tell the line, so that what a datum does depends
  on the datum alone (`runEntry_eq_of_datum`);
* the shell runs the data of the text in order, some at a time (`lines_eq`);
* the banner has been printed before, which makes no difference.

There must be no tests in the text, as they would be run too early, and no commands.  And
there must be no backspaces: the shell carries them out, and a text that is run as
it is has them in its atoms (`piped_text_with_backspace`).
-/
import Mathlib.Data.List.TakeWhile
import Primer.Proofs.Cutting
import Primer.Proofs.Earlier

namespace Primer

open Outcome

/-! ### Data without their places -/

/-- Reports on interactive input do not tell the line. -/
theorem Error.render_locate (e : SyntaxError) {l l' : Location} (hl : l.source = standardInput)
    (hl' : l'.source = standardInput) :
    render .hidden (.malformed (e.locate l)) = render .hidden (.malformed (e.locate l')) := by
  cases he : e.location with
  | some place => simp [SyntaxError.locate, he]
  | none => simp [render, SyntaxError.locate, he, hl, hl']

/-- A datum of interactive input, on no line in particular. -/
def Entry.ofDatum (d : Datum) : Entry := ⟨⟨standardInput, 1⟩, .ok d⟩

namespace Session

variable {L : Language} {useFile : String → Session L → Outcome (Session L) Summary}

/-- The session does not tell the line of interactive input. -/
def Hidden (s : Session L) : Prop := s.settings.locations = .hidden

theorem kept_hidden : Kept (L := L) Hidden := .of_machine (fun _ _ h => h) fun _ h => h

theorem leaves_hidden (disk : Disk) (file : String) (s : Session L) (hs : Hidden s) :
    Leaves Hidden (s.runFile disk file) :=
  kept_hidden.leaves_runFileWithin (fun _ _ => trivial) (fun _ _ h => h) disk _ file hs

theorem recover_congr (s : Session L) {e e' : Error}
    (h : e.render s.settings.locations = e'.render s.settings.locations) (summary : Summary) :
    s.recover e summary = s.recover e' summary := by
  unfold recover Console.report
  rw [h]

theorem runEntry_eq_of_datum {s : Session L} (hs : Hidden s) {entry : Entry} {d : Datum}
    (hsource : entry.location.source = standardInput) (hd : entry.result = .ok d)
    (tally : Tally L) :
    runEntry useFile entry tally s = runEntry useFile (.ofDatum d) tally s := by
  simp only [runEntry, Entry.ofDatum, hd]
  cases L.recognise d with
  | ok form => rfl
  | error e =>
    have hrender : Error.render .hidden (.malformed (e.locate entry.location))
        = Error.render .hidden (.malformed (e.locate ⟨standardInput, 1⟩)) :=
      Error.render_locate e hsource rfl
    rw [← hs] at hrender
    simp only [recoverIn, s.recover_congr hrender]

/-- What was read from interactive input is run as its data are. -/
theorem runEntries_eq_of_data (huse : ∀ file s, Hidden s → Leaves Hidden (useFile file s))
    {entries : List Entry} {data : List Datum} {s : Session L} (hs : Hidden s)
    (hsource : ∀ entry ∈ entries, entry.location.source = standardInput)
    (hdata : entries.map Entry.datum? = data.map some) (tally : Tally L) :
    runEntries useFile entries tally s = runEntries useFile (data.map .ofDatum) tally s := by
  induction entries generalizing data s tally with
  | nil =>
    obtain rfl : data = [] := by simpa using hdata.symm
    rfl
  | cons entry entries ih =>
    obtain ⟨d, data, rfl, hd, hrest⟩ := List.map_eq_cons_iff.1 hdata.symm
    have hresult : entry.result = .ok d := by
      cases hentry : entry.result with
      | ok d' => simpa [Entry.datum?, hentry, Except.toOption] using hd.symm
      | error e => simp [Entry.datum?, hentry, Except.toOption] at hd
    have hfirst : runEntry useFile entry tally s = runEntry useFile (.ofDatum d) tally s :=
      runEntry_eq_of_datum hs (hsource entry List.mem_cons_self) hresult tally
    have hkept := kept_hidden.settles_runEntry huse (.ofDatum d) (fun _ _ => trivial)
      tally hs
    rw [List.map_cons, runEntries, runEntries, hfirst]
    revert hkept
    cases runEntry useFile (.ofDatum d) tally s with
    | fault e s => exact fun h => h.elim
    | unfinished s => exact fun _ => rfl
    | value tally s =>
      intro hs
      exact ih hs (fun entry' h => hsource entry' (List.mem_cons_of_mem entry h)) hrest.symm tally

/-- Run some data of interactive input. -/
def perform (disk : Disk) (data : List Datum) (s : Session L) : Outcome (Session L) (Tally L) :=
  runEntries (runFile disk) (data.map .ofDatum) .zero s

theorem perform_append (disk : Disk) (data more : List Datum) (s : Session L) :
    perform disk (data ++ more) s
      = (perform disk data s).andThen fun tally s => (perform disk more s).map tally.add := by
  rw [perform, List.map_append, runEntries_append]
  congr 1
  funext tally s
  exact runEntries_add _ tally s

/-- None of the data is a test. -/
def Untested (L : Language) (data : List Datum) : Prop := L.tests (data.map .ofDatum) = []

theorem tests_eq_of_data {entries : List Entry} {data : List Datum}
    (hdata : entries.map Entry.datum? = data.map some) :
    L.tests entries = L.tests (data.map .ofDatum) := by
  have htests : ∀ entries, L.tests entries = (entries.map Entry.datum?).filterMap fun d =>
      (d.bind fun d => (L.recognise d).toOption).bind Form.test? := by
    intro entries
    rw [Language.tests, List.filterMap_map]
    refine List.filterMap_congr fun entry _ => ?_
    simp only [Function.comp, Language.form?, Entry.datum?]
    cases entry.result <;> rfl
  have hsame : (data.map Entry.ofDatum).map Entry.datum? = data.map some := by
    rw [List.map_map]
    rfl
  rw [htests, htests, hdata, hsame]

theorem untested_append {data more : List Datum} :
    Untested L (data ++ more) ↔ Untested L data ∧ Untested L more := by
  simp [Untested, Language.tests]

theorem settles_perform (disk : Disk) (data : List Datum) {s : Session L} (hs : Hidden s) :
    Settles Hidden (s.perform disk data) :=
  kept_hidden.settles_runEntries (leaves_hidden disk) _ (fun _ _ _ _ => trivial) _ hs

/-- A complete text of interactive input is run as its data are. -/
theorem runSource_eq_perform (disk : Disk) {text : String} {data : List Datum} {s : Session L}
    (hs : Hidden s) (hdraft : drafted (lexemes text.toList) = some ⟨data.reverse, none⟩)
    (htests : Untested L data) :
    s.runSource disk standardInput text = (perform disk data s).map Tally.summary := by
  have hdata : (readAll standardInput text).map Entry.datum? = data.map some := by
    rw [datum?_readAll, datum?_of_drafted hdraft, List.reverse_reverse]
  have hsource : ∀ entry ∈ readAll standardInput text, entry.location.source = standardInput := by
    intro entry hentry
    obtain ⟨item, -, rfl⟩ := List.mem_map.1 hentry
    rfl
  have hperform : runEntries (runFile disk) (readAll standardInput text) ⟨.zero, []⟩ s
      = perform disk data s :=
    runEntries_eq_of_data (leaves_hidden disk) hs hsource hdata .zero
  rw [runSource, runUnit, hperform]
  cases hrun : perform disk data s with
  | fault e s => rfl
  | unfinished s => rfl
  | value tally s =>
    have hnone : tally.tests.reverse = [] := by
      rw [tests_runEntries hrun, htests]
      rfl
    rw [andThen_value, hnone]
    rfl

end Session

/-! ### Line by line -/

namespace Shell

variable {L : Language}

/-- What a line may be besides part of a program. -/
def commands : List String := [":help", ":env", ":quit", ":exit"]

theorem line_eq_gather (disk : Disk) {line : String} {shell : Shell L}
    (h : shell.buffer.isEmpty = false ∨
      Text.trimBlanks line ≠ "" ∧ Text.trimBlanks line ∉ commands) :
    Shell.line disk line shell = gather disk line shell := by
  unfold Shell.line
  split
  · next hempty =>
    rw [hempty] at h
    obtain ⟨hblank, hcommand⟩ := h.resolve_left (by decide)
    split
    · next heq => exact absurd heq hblank
    · next heq => exact absurd (by rw [heq]; decide) hcommand
    · next heq => exact absurd (by rw [heq]; decide) hcommand
    · next heq => exact absurd (by rw [heq]; decide) hcommand
    · next heq => exact absurd (by rw [heq]; decide) hcommand
    · rfl
  · rfl

theorem isBlank_of_trimBlanks {line : String} (h : Text.trimBlanks line = "") :
    ∀ c ∈ line.toList, Text.isBlank c = true := by
  -- what is left in front, read backwards, is blank throughout, so nothing is left there
  have hback : (line.toList.dropWhile Text.isBlank).reverse.dropWhile Text.isBlank = [] := by
    simpa [Text.trimBlanks] using h
  rw [List.dropWhile_eq_nil_iff] at hback
  have hfront : line.toList.dropWhile Text.isBlank = [] := by
    cases hrest : line.toList.dropWhile Text.isBlank with
    | nil => rfl
    | cons c cs =>
      have hhead := List.head?_dropWhile_not Text.isBlank line.toList
      rw [hrest] at hhead hback
      have hc := hback c (by simp)
      simp [hc] at hhead
  exact List.dropWhile_eq_nil_iff.1 hfront

theorem needsMore_gathered {lines : List String} {d : Draft}
    (h : drafted (lexemesOf lines) = some d) : needsMore (gathered lines) = d.open?.isSome := by
  rw [← lexemes_gathered] at h
  exact needsMore_eq h

theorem isEmpty_gathered {lines : List String} (h : lines ≠ []) :
    (gathered lines).isEmpty = false := by
  rw [← Bool.not_eq_true, String.isEmpty_iff]
  intro hempty
  have hchars := toList_gathered lines
  rw [hempty] at hchars
  obtain ⟨line, lines, rfl⟩ := List.exists_cons_of_ne_nil h
  simp at hchars

/-- How the shell goes on when it has run what was gathered. -/
def goesOn {α : Type} : Outcome (Session L) α → Next L
  | .value _ s => .ready ⟨s, ""⟩
  | .fault _ s => .ready ⟨s, ""⟩
  | .unfinished s => .unfinished ⟨s, ""⟩

/-- How the shell ends when all of its input has been run. -/
def ended {α : Type} : Outcome (Session L) α → Next L
  | .value _ s => .leave ⟨s, ""⟩
  | .fault _ s => .leave ⟨s, ""⟩
  | .unfinished s => .unfinished ⟨s, ""⟩

theorem ended_map {α β : Type} (o : Outcome (Session L) α) (f : α → β) :
    ended (o.map f) = ended o := by
  cases o <;> rfl

section

variable (disk : Disk) {pending : List String} {line : String} {s : Session L}

/-- One line more, and still a datum is open. -/
theorem gather_open {data : List Datum} {stack : List Pending}
    (h : drafted (lexemesOf (pending ++ [line])) = some ⟨data, some stack⟩) :
    gather disk line ⟨s, gathered pending⟩ = .ready ⟨s, gathered (pending ++ [line])⟩ := by
  have hmore : needsMore (gathered (pending ++ [line])) = true := needsMore_gathered h
  rw [gathered_concat] at hmore ⊢
  rw [gather, if_pos hmore]

/-- One line more, and what was gathered is run. -/
theorem gather_complete (hs : s.Hidden) {data : List Datum}
    (h : drafted (lexemesOf (pending ++ [line])) = some ⟨data.reverse, none⟩)
    (htests : Session.Untested L data) :
    gather disk line ⟨s, gathered pending⟩ = goesOn (s.perform disk data) := by
  have hmore : ¬ needsMore (gathered (pending ++ [line])) = true := by
    rw [needsMore_gathered h]
    exact Bool.false_ne_true
  have hrun : s.runSource disk standardInput (gathered (pending ++ [line]))
      = (s.perform disk data).map Session.Tally.summary := by
    refine Session.runSource_eq_perform disk hs ?_ htests
    rw [lexemes_gathered, h]
  rw [gathered_concat] at hmore hrun
  rw [gather, if_neg hmore]
  dsimp only
  rw [hrun]
  cases s.perform disk data <;> rfl

/-- A blank line has nothing to gather. -/
theorem lexemesOf_blank (hblank : Text.trimBlanks line = "")
    (hfree : StrayFree (lexemesOf [line])) : lexemesOf [line] = [] := by
  rw [lexemesOf_singleton] at hfree ⊢
  exact lineLexemes_of_isBlank (isBlank_of_trimBlanks hblank) hfree

end

/-- Some lines that end where nothing is open. -/
def Complete (lines : List String) : Prop :=
  ∃ data, drafted (lexemesOf lines) = some ⟨data, none⟩

theorem complete_nil : Complete [] := ⟨[], rfl⟩

theorem Complete.append {lines more : List String} (h : Complete lines) (h' : Complete more) :
    Complete (lines ++ more) := by
  obtain ⟨data, hdata⟩ := h
  obtain ⟨data', hdata'⟩ := h'
  refine ⟨data' ++ data, ?_⟩
  rw [lexemesOf_append, drafted_append hdata, hdata']
  rfl

/-- The shell runs the data of its input in order.  Some lines may be pending, which end
within a datum. -/
theorem lines_eq (disk : Disk) {pending rest : List String} {data : List Datum} {s : Session L}
    (hs : s.Hidden) (hdraft : drafted (lexemesOf (pending ++ rest)) = some ⟨data.reverse, none⟩)
    (hpending : pending = [] ∨ ¬ Complete pending) (htests : Session.Untested L data)
    (hcommands : ∀ before line after, rest = before ++ line :: after →
      Complete (pending ++ before) → Text.trimBlanks line ∉ commands) :
    lines disk rest ⟨s, gathered pending⟩ = ended (s.perform disk data) := by
  induction rest generalizing pending data s with
  | nil =>
    rw [List.append_nil] at hdraft
    obtain rfl : pending = [] := hpending.resolve_right fun hopen => hopen ⟨_, hdraft⟩
    obtain rfl : data = [] := by simpa [drafted, lexemesOf, Draft.start] using hdraft
    rfl
  | cons line rest ih =>
    rw [List.append_cons, lexemesOf_append] at hdraft
    obtain ⟨⟨data₁, o⟩, hd⟩ := exists_drafted_of_append hdraft
    -- the lines that follow hold no command where nothing is open
    have hlater : ∀ before line' after, rest = before ++ line' :: after →
        Complete (pending ++ [line] ++ before) → Text.trimBlanks line' ∉ commands := by
      intro before line' after hrest hcomplete
      rw [List.append_assoc] at hcomplete
      exact hcommands (line :: before) line' after (by rw [hrest, List.cons_append]) hcomplete
    by_cases hskip : pending = [] ∧ Text.trimBlanks line = ""
    · -- a blank line, and nothing pending
      obtain ⟨rfl, hblank⟩ := hskip
      have hnone : lexemesOf [line] = [] := lexemesOf_blank hblank (strayFree_of_drafted hd)
      have hline : Shell.line disk line ⟨s, gathered []⟩ = .ready ⟨s, gathered []⟩ := by
        simp [Shell.line, gathered, hblank]
      have hcomplete : Complete ([] ++ [line]) := ⟨[], by rw [List.nil_append, hnone]; rfl⟩
      rw [List.nil_append, hnone, List.nil_append] at hdraft
      rw [lines, hline]
      exact ih hs hdraft (.inl rfl) htests fun before line' after hrest h =>
        hlater before line' after hrest (hcomplete.append h)
    · have hgather : Shell.line disk line ⟨s, gathered pending⟩
          = gather disk line ⟨s, gathered pending⟩ := by
        apply line_eq_gather
        by_cases hempty : pending = []
        · subst hempty
          exact .inr ⟨fun h => hskip ⟨rfl, h⟩, hcommands [] line rest rfl complete_nil⟩
        · exact .inl (isEmpty_gathered hempty)
      rw [lines, hgather]
      cases o with
      | some stack =>
        -- the lines up to this one are pending now
        rw [← lexemesOf_append] at hdraft
        rw [gather_open disk hd]
        refine ih hs hdraft (.inr ?_) htests hlater
        rintro ⟨data', hdata'⟩
        rw [hd] at hdata'
        cases hdata'
      | none =>
        -- their data are run, and then those of the lines that follow
        obtain ⟨data₂, hd₂, hdata⟩ := exists_drafted_rest hd hdraft
        obtain rfl : data = data₁.reverse ++ data₂.reverse := by
          rw [← List.reverse_append]
          exact List.reverse_eq_iff.1 hdata
        obtain ⟨htests₁, htests₂⟩ := Session.untested_append.1 htests
        have hrest : ∀ s₁ : Session L, s₁.Hidden →
            lines disk rest ⟨s₁, gathered []⟩ = ended (s₁.perform disk data₂.reverse) := by
          intro s₁ hs₁
          refine ih hs₁ ?_ (.inl rfl) htests₂ fun before line' after hrest h =>
            hlater before line' after hrest (Complete.append ⟨data₁, hd⟩ h)
          rw [List.nil_append, hd₂, List.reverse_reverse]
        have hkept := Session.settles_perform disk data₁.reverse hs
        rw [Session.perform_append,
          gather_complete disk hs (by rw [hd, List.reverse_reverse]) htests₁]
        revert hkept
        cases s.perform disk data₁.reverse with
        | fault e s₁ => exact fun h => h.elim
        | unfinished s₁ => exact fun _ => rfl
        | value tally s₁ =>
          intro hs₁
          rw [andThen_value, ended_map]
          exact hrest s₁ hs₁

/-! ### The whole input -/

/-- A line has no other characters than those read since the last one. -/
theorem linesOf_newline (reversed cs : List Char) : ∃ chars, chars ⊆ reversed ∧
    linesOf reversed ('\n' :: cs) = String.ofList chars.reverse :: linesOf [] cs := by
  cases reversed with
  | nil => exact ⟨[], List.Subset.refl _, by simp [linesOf]⟩
  | cons c before =>
    by_cases hc : c = '\r'
    · subst hc
      exact ⟨before, List.subset_cons_self _ _, by simp [linesOf]⟩
    · exact ⟨c :: before, List.Subset.refl _, by simp [linesOf, hc]⟩

theorem mem_of_mem_linesOf {reversed cs : List Char} {line : String} {c : Char}
    (hline : line ∈ linesOf reversed cs) (hc : c ∈ line.toList) : c ∈ reversed ∨ c ∈ cs := by
  induction cs generalizing reversed with
  | nil =>
    cases reversed with
    | nil => cases hline
    | cons c' before =>
      obtain rfl : line = String.ofList (c' :: before).reverse := by simpa [linesOf] using hline
      exact .inl (by simpa [or_comm] using hc)
  | cons c' cs ih =>
    by_cases hnewline : c' = '\n'
    · subst hnewline
      obtain ⟨chars, hchars, heq⟩ := linesOf_newline reversed cs
      rw [heq] at hline
      rcases List.mem_cons.1 hline with rfl | hrest
      · exact .inl (hchars (by simpa using hc))
      · exact .inr (List.mem_cons_of_mem _ ((ih hrest).resolve_left List.not_mem_nil))
    · have hmore : linesOf reversed (c' :: cs) = linesOf (c' :: reversed) cs := by simp [linesOf]
      rw [hmore] at hline
      rcases ih hline with hmem | hmem
      · rcases List.mem_cons.1 hmem with rfl | hmem
        · exact .inr List.mem_cons_self
        · exact .inl hmem
      · exact .inr (List.mem_cons_of_mem _ hmem)

/-- Lines without a backspace are what they are. -/
theorem typedLines_eq {input : String} (h : Text.backspace ∉ input.toList) :
    typedLines input = linesOf [] input.toList := by
  rw [typedLines]
  conv => rhs; rw [← List.map_id (linesOf [] input.toList)]
  refine List.map_congr_left fun line hline => Text.typed_eq_self fun hmem => h ?_
  exact (mem_of_mem_linesOf hline hmem).resolve_left List.not_mem_nil

/-- The banner is a line before all that is printed. -/
theorem say_banner (limits : Limits) :
    say (Session.initial L .empty limits settings) [banner L]
      = (Session.initial L .empty limits settings).after (banner L ++ "\n") := by
  have htext : (banner L ++ "\n").isEmpty = false := by
    rw [← Bool.not_eq_true, String.isEmpty_iff]
    intro h
    simpa using congrArg String.toList h
  have hwrite : (Session.initial L .empty limits settings).machine.console.out.write
      (banner L ++ "\n") = .value () (Channel.empty.after (banner L ++ "\n")) := by
    show Channel.empty.write _ = _
    rw [← Channel.empty.writeText_eq_write (fun _ => banner L ++ "\n") htext,
      Channel.empty_open.writeText, Channel.wrote_empty]
  have hline : [banner L].foldl (fun acc line => acc ++ line ++ "\n") "" = banner L ++ "\n" := by
    simp
  simp only [say, hline, hwrite]
  rfl

/-- Taken line by line the whole input is run as one unit, after the banner. -/
theorem lines_typedLines (hL : L.Unheeding) (disk : Disk) (limits : Limits) {text : String}
    {data : List Datum} (hdraft : drafted (lexemes text.toList) = some ⟨data.reverse, none⟩)
    (htests : Session.Untested L data)
    (hcommands : ∀ before line after, linesOf [] text.toList = before ++ line :: after →
      needsMore (gathered before) = false → Text.trimBlanks line ∉ commands)
    (hbackspace : Text.backspace ∉ text.toList) :
    lines disk (typedLines text) ⟨say (Session.initial L .empty limits settings) [banner L], ""⟩
      = ended (((Session.initial L .empty limits settings).runSource disk standardInput
          text).mapState (Session.after (banner L ++ "\n"))) := by
  have hlines : drafted (lexemesOf ([] ++ linesOf [] text.toList)) = some ⟨data.reverse, none⟩ := by
    rw [List.nil_append, ← lexemes_eq_lexemesOf (strayFree_of_drafted hdraft), hdraft]
  have hhidden : ((Session.initial L .empty limits settings).after (banner L ++ "\n")).Hidden := rfl
  rw [say_banner, typedLines_eq hbackspace,
    ← Session.commutes_runSource hL (banner L ++ "\n") disk standardInput text,
    Session.runSource_eq_perform disk hhidden hdraft htests, ended_map]
  refine lines_eq disk hhidden hlines (.inl rfl) htests fun before line after heq hcomplete => ?_
  obtain ⟨data', hdata'⟩ := hcomplete
  exact hcommands before line after heq (needsMore_gathered hdata')

section

variable {disk : Disk} {limits : Limits} {args : List String} {text : String}
  {shell : Shell (languageOf args)}

theorem run_eq_some (hfiles : fileArguments args = [])
    (h : lines disk (typedLines text)
        ⟨say (Session.initial (languageOf args) .empty limits settings)
          [banner (languageOf args)], ""⟩
      = .leave shell) :
    run disk limits args text = some (transcript shell.session 0) := by
  simp only [run, hfiles, runFiles, h]

theorem run_eq_none (hfiles : fileArguments args = [])
    (h : lines disk (typedLines text)
        ⟨say (Session.initial (languageOf args) .empty limits settings)
          [banner (languageOf args)], ""⟩
      = .unfinished shell) :
    run disk limits args text = none := by
  simp only [run, hfiles, runFiles, h]

end

theorem unheeding_languageOf (args : List String) : (languageOf args).Unheeding := by
  unfold languageOf
  split
  · exact Language.unheeding_procedural
  · exact Language.unheeding_functional

theorem exists_ok_of_all {entries : List Entry}
    (h : (entries.all fun entry => entry.result.isOk) = true) (entry : Entry)
    (hentry : entry ∈ entries) : ∃ d, entry.result = .ok d := by
  have hok := List.all_eq_true.1 h entry hentry
  cases hresult : entry.result with
  | ok d => exact ⟨d, rfl⟩
  | error e => simp [hresult, Except.isOk, Except.toBool] at hok

theorem not_mem_commands {ls : List String}
    (h : ∀ i : Fin ls.length, needsMore (gathered (ls.take i)) = false →
      Text.trimBlanks (ls.get i) ∉ commands)
    (before : List String) (line : String) (after : List String)
    (hls : ls = before ++ line :: after)
    (hmore : needsMore (gathered before) = false) : Text.trimBlanks line ∉ commands := by
  subst hls
  have hline := h ⟨before.length, by simp⟩
  simp only [List.take_left, List.get_eq_getElem, List.getElem_append_right, Nat.le_refl,
    Nat.sub_self, List.getElem_cons_zero] at hline
  exact hline hmore

/-- A text that is piped into the shell is run as if it were one unit.  Let all of it be data,
none of them a test, no line a command where nothing is open, and no character a
backspace.  Then the shell writes its banner and after it what a new session writes when
it runs the whole text, comes to the same state, and leaves with code 0; or some program in the
text does not come to an end either way. -/
theorem piped_text_runs_as_one (disk : Disk) (limits : Limits) {args : List String} {text : String}
    (hfiles : fileArguments args = [])
    (hread : ∀ entry ∈ readAll standardInput text, ∃ d, entry.result = .ok d)
    (htests : (languageOf args).tests (readAll standardInput text) = [])
    (hcommands : ∀ before line after, linesOf [] text.toList = before ++ line :: after →
      needsMore (gathered before) = false → Text.trimBlanks line ∉ commands)
    (hbackspace : Text.backspace ∉ text.toList) :
    let L := languageOf args
    let s := Session.initial L .empty limits settings
    (∃ summary s', s.runSource disk standardInput text = .value summary s' ∧
      lines disk (typedLines text) ⟨say s [banner L], ""⟩
        = .leave ⟨s'.after (banner L ++ "\n"), ""⟩ ∧
      run disk limits args text = some ⟨banner L ++ "\n" ++ s'.machine.console.out.text,
        s'.machine.console.diag.text, 0⟩) ∨
    (∃ s', s.runSource disk standardInput text = .unfinished s' ∧
      run disk limits args text = none) := by
  intro L s
  obtain ⟨reversed, hdraft⟩ := exists_drafted_of_readAll hread
  obtain ⟨data, rfl⟩ : ∃ data : List Datum, reversed = data.reverse :=
    ⟨reversed.reverse, reversed.reverse_reverse.symm⟩
  have hdata : (readAll standardInput text).map Entry.datum? = data.map some := by
    rw [datum?_readAll, datum?_of_drafted hdraft, List.reverse_reverse]
  have huntested : Session.Untested L data := by
    rw [Session.Untested, ← Session.tests_eq_of_data hdata]
    exact htests
  have hloop : lines disk (typedLines text) ⟨say s [banner L], ""⟩
      = ended ((s.runSource disk standardInput text).mapState (Session.after (banner L ++ "\n"))) :=
    lines_typedLines (unheeding_languageOf args) disk limits hdraft huntested hcommands hbackspace
  cases hrun : s.runSource disk standardInput text with
  | value summary s' =>
    rw [hrun] at hloop
    exact .inl ⟨summary, s', rfl, hloop, run_eq_some hfiles hloop⟩
  | fault e s' => exact absurd hrun (Session.runSource_ne_fault disk standardInput text s e s')
  | unfinished s' =>
    rw [hrun] at hloop
    exact .inr ⟨s', rfl, run_eq_none hfiles hloop⟩

/-- Data that span lines, a line end of two characters, a bracket in a comment, a form that is none,
a name without a value, a quote mark at the end of its line, a name in a list that would be a
command elsewhere, and a last line without an end. -/
theorem piped_text_runs_as_one_cut :
    let text := "(val x ; [\r\n1)\n\n(val) y\n'\n(a\n:quit\n) x"
    let s := Session.initial (languageOf []) .empty ⟨9, 9⟩ settings
    let banner := "uscheme interpreter. Type :help for commands, Ctrl+D to exit.\n"
    let out := "1\n(a :quit)\n1\n"
    let diag := "syntax error: in (val), expected (val x e)\nRun-time error: name y not found\n"
    ∃ summary s', s.runSource ⟨[], some⟩ standardInput text = .value summary s' ∧
      s'.machine.console.out.text = out ∧ s'.machine.console.diag.text = diag ∧
      lines ⟨[], some⟩ (typedLines text) ⟨say s [Shell.banner (languageOf [])], ""⟩
        = .leave ⟨s'.after banner, ""⟩ ∧
      run ⟨[], some⟩ ⟨9, 9⟩ [] text = some ⟨banner ++ out, diag, 0⟩ := by
  intro text s banner out diag
  have hread := @exists_ok_of_all (readAll standardInput text) (by decide +kernel)
  have htests : (languageOf []).tests (readAll standardInput text) = [] :=
    List.eq_nil_of_length_eq_zero (by decide +kernel)
  have hcommands := @not_mem_commands (linesOf [] text.toList) (by decide +kernel)
  have hend : ((s.runSource ⟨[], some⟩ standardInput text).value?.isSome,
      (s.runSource ⟨[], some⟩ standardInput text).state.machine.console.out.text,
      (s.runSource ⟨[], some⟩ standardInput text).state.machine.console.diag.text)
        = (true, out, diag) := by
    decide +kernel
  have hbackspace : Text.backspace ∉ text.toList := by decide +kernel
  rcases piped_text_runs_as_one ⟨[], some⟩ ⟨9, 9⟩ rfl hread htests hcommands hbackspace with
    ⟨summary, s', hrun, hlines, hshell⟩ | ⟨s', hrun, -⟩
  · rw [hrun] at hend
    have htexts := Prod.mk.inj (Prod.mk.inj hend).2
    have hout : s'.machine.console.out.text = out := htexts.1
    have hdiag : s'.machine.console.diag.text = diag := htexts.2
    refine ⟨summary, s', hrun, hout, hdiag, hlines, ?_⟩
    rw [hout, hdiag] at hshell
    exact hshell
  · rw [hrun] at hend
    cases (Prod.mk.inj hend).1

/-- A backspace is the exception.  The shell takes back the character before it; the text as it is
has a name of three characters in this place. -/
theorem piped_text_with_backspace :
    let text := "1\x082\n"
    let s := Session.initial (languageOf []) .empty ⟨9, 9⟩ settings
    let banner := "uscheme interpreter. Type :help for commands, Ctrl+D to exit.\n"
    (∀ entry ∈ readAll standardInput text, ∃ d, entry.result = .ok d) ∧
    (languageOf []).tests (readAll standardInput text) = [] ∧
    (∀ before line after, linesOf [] text.toList = before ++ line :: after →
      needsMore (gathered before) = false → Text.trimBlanks line ∉ commands) ∧
    (let console := (s.runSource ⟨[], some⟩ standardInput text).state.machine.console
     (console.out.text, console.diag.text) = ("", "Run-time error: name 1\x082 not found\n")) ∧
    (run ⟨[], some⟩ ⟨9, 9⟩ [] text).map (fun t => (t.out, t.diag, t.code))
      = some (banner ++ "2\n", "", 0) := by
  intro text s banner
  exact ⟨@exists_ok_of_all (readAll standardInput text) (by decide +kernel),
    List.eq_nil_of_length_eq_zero (by decide +kernel),
    @not_mem_commands (linesOf [] text.toList) (by decide +kernel),
    by decide +kernel, by decide +kernel⟩

end Shell

end Primer
