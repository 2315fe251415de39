/-
Primer/Proofs/Cutting.lean

Where a text may be cut.

A text that is read in pieces gives the same data as the whole if it is cut between
lexemes and between data.

* Where all that is open ends before the cut (`EndsBefore`), the tokens are those of the
  two parts, with the places of the second moved behind the first
  (`Token.ofText_append`).
* After the end of a line no atom and no comment is open, so the lexemes of a text
  are those of its lines, one line after the other
  (`lexemes_eq_lexemesOf`).  This takes texts without stray characters:
  only in a comment does a carriage return before the end of a line matter, and there
  two of them make a stray.
* `Draft` is the reader as it works on lexemes, as long as nothing is wrong: the data
  so far and what is open.  It decides what is read from a text
  (`results_readAll`) and whether the text is complete (`needsMore_eq`).
  Where nothing is open, the data so far do not matter for what follows
  (`drafted_append`).
-/
import Mathlib.Data.List.Induction
import Primer.Proofs.Spelling
import Primer.Shell

namespace Primer

/-! ### Cutting between lexemes -/

/-- A place of a text, where the text `x` stands in front of it. -/
def Position.behind (x : List Char) (p : Position) : Position :=
  ⟨x.length + p.offset, x.count '\n' + p.line⟩

def Token.behind (x : List Char) (t : Token) : Token := ⟨t.lexeme, t.position.behind x⟩

def Mode.behind (x : List Char) : Mode → Mode
  | .between => .between
  | .atom p reversed => .atom (p.behind x) reversed
  | .comment p => .comment (p.behind x)
  | .carriage p => .carriage (p.behind x)

namespace Position

theorem advance_behind (x : List Char) (p : Position) (c : Char) :
    (p.behind x).advance c = (p.advance c).behind x := by
  unfold advance behind
  dsimp only
  split <;> rfl

theorem behind_behind (x y : List Char) (p : Position) :
    (p.behind y).behind x = p.behind (x ++ y) := by
  simp only [behind, List.length_append, List.count_append, Nat.add_assoc]

end Position

theorem Token.behind_behind (x y : List Char) (t : Token) :
    (t.behind y).behind x = t.behind (x ++ y) := by
  rw [behind, behind, behind, Position.behind_behind]

namespace Scan

/-- The state of reading where the text `x`, with the tokens `before`, stands in front. -/
def behind (x : List Char) (before : List Token) (s : Scan) : Scan :=
  ⟨s.mode.behind x, s.position.behind x, s.found.map (Token.behind x) ++ before⟩

section

variable (x : List Char) (before : List Token)

theorem opens_behind (p : Position) (c : Char) :
    opens (p.behind x) c = ((opens p c).1.behind x, (opens p c).2) := by
  unfold opens
  repeat' split
  all_goals rfl

theorem enter_behind (s : Scan) (c : Char) (ts : List Token) :
    (s.behind x before).enter c (ts.map (Token.behind x) ++ before)
      = (s.enter c ts).behind x before := by
  have hopens : opens (s.behind x before).position c = _ := opens_behind x s.position c
  have hadvance : (s.behind x before).position.advance c = _ := s.position.advance_behind x c
  unfold enter
  rw [hopens, hadvance]
  generalize opens s.position c = o
  obtain ⟨mode, _ | lexeme⟩ := o <;> rfl

theorem finish_behind (s : Scan) :
    (s.behind x before).finish = s.finish.map (Token.behind x) ++ before := by
  obtain ⟨mode, position, found⟩ := s
  cases mode <;> rfl

theorem step_behind (s : Scan) (c : Char) :
    (s.behind x before).step c = (s.step c).behind x before := by
  have henter := enter_behind x before s c s.finish
  have hadvance := s.position.advance_behind x c
  obtain ⟨mode, position, found⟩ := s
  cases mode with
  | between => exact henter
  | atom p reversed =>
    simp only [step, behind, Mode.behind]
    split
    · exact henter
    · rw [hadvance]
  | comment p =>
    simp only [step, behind, Mode.behind, hadvance]
    split
    · rfl
    · split <;> rfl
  | carriage p =>
    simp only [step, behind, Mode.behind]
    split
    · rw [hadvance]
    · exact henter

theorem foldl_behind (s : Scan) (cs : List Char) :
    cs.foldl step (s.behind x before) = (cs.foldl step s).behind x before := by
  induction cs generalizing s with
  | nil => rfl
  | cons c cs ih => rw [List.foldl_cons, step_behind, ih, List.foldl_cons]

end

theorem position_enter (s : Scan) (c : Char) (before : List Token) :
    (s.enter c before).position = s.position.advance c := by
  unfold enter
  split <;> rfl

theorem position_step (s : Scan) (c : Char) : (s.step c).position = s.position.advance c := by
  unfold step
  split
  · exact position_enter s c _
  · split
    · exact position_enter s c _
    · rfl
  · rfl
  · split
    · rfl
    · exact position_enter s c _

/-- The place after a text is that of its end. -/
theorem position_foldl (text : List Char) :
    (text.foldl step .start).position = Position.start.behind text := by
  induction text using List.reverseRecOn with
  | nil => rfl
  | append_singleton text c ih =>
    rw [List.foldl_append, List.foldl_cons, List.foldl_nil, position_step, ih,
      Position.advance_behind, ← Position.behind_behind]
    by_cases hc : c = '\n'
    · subst hc
      rfl
    · simp [Position.behind, Position.advance, hc, Position.start]

/-- The end of a line ends whatever was open. -/
theorem mode_step_newline (s : Scan) : (s.step '\n').mode = .between := by
  obtain ⟨mode, position, found⟩ := s
  cases mode <;> rfl

end Scan

/-- What is open at the end of `x` ends before `y`. -/
def EndsBefore (x y : List Char) : Prop :=
  ∀ c ∈ y.head?, (x.foldl Scan.step .start).step c
    = (x.foldl Scan.step .start).enter c (x.foldl Scan.step .start).finish

/-- Where nothing is open, anything can follow. -/
theorem EndsBefore.of_mode {x : List Char} (h : (x.foldl Scan.step .start).mode = .between)
    (y : List Char) : EndsBefore x y := by
  intro c _
  rw [Scan.step, Scan.finish, h]

theorem EndsBefore.of_settled {x y : List Char} (h : (x.foldl Scan.step .start).Settled)
    (hy : ∀ c ∈ y.head?, Text.isDelimiter c = true) : EndsBefore x y :=
  fun c hc => h.step_delimiter (hy c hc)

theorem EndsBefore.nil (x : List Char) : EndsBefore x [] :=
  fun c hc => absurd hc (Option.not_mem_none c)

theorem EndsBefore.left {x y z : List Char} (h : EndsBefore x (y ++ z)) : EndsBefore x y := by
  intro c hc
  exact h c (by rw [List.head?_append, Option.mem_def.1 hc, Option.some_or]; rfl)

/-- After the cut the scan of the whole text is that of the second part. -/
theorem EndsBefore.foldl_append {x y : List Char} (h : EndsBefore x y) (hy : y ≠ []) :
    (x ++ y).foldl Scan.step .start
      = (y.foldl Scan.step .start).behind x (x.foldl Scan.step .start).finish := by
  obtain ⟨c, y, rfl⟩ := List.exists_cons_of_ne_nil hy
  have hstep := h c rfl
  have hposition := Scan.position_foldl x
  rw [List.foldl_append, List.foldl_cons, List.foldl_cons, ← Scan.foldl_behind]
  generalize x.foldl Scan.step .start = s at hstep hposition
  -- at `c` both scans begin anew, one of them with the tokens of `x` before it
  have hbegin : s.enter c s.finish = (Scan.start.behind x s.finish).enter c s.finish := by
    unfold Scan.enter
    rw [hposition]
    rfl
  have hshift : (Scan.start.behind x s.finish).enter c s.finish
      = (Scan.start.step c).behind x s.finish := Scan.enter_behind x s.finish .start c []
  rw [hstep, hbegin, hshift]

/-- A text that is cut where what is open ends has the tokens of its two parts. -/
theorem Token.ofText_append {x y : List Char} (h : EndsBefore x y) :
    ofText (x ++ y) = ofText x ++ (ofText y).map (behind x) := by
  by_cases hy : y = []
  · subst hy
    rw [List.append_nil]
    exact (List.append_nil _).symm
  · rw [ofText, h.foldl_append hy, Scan.finish_behind, List.reverse_append, ← List.map_reverse]
    rfl

/-- Cuts one after the other. -/
theorem EndsBefore.append {x y z : List Char} (h : EndsBefore x (y ++ z)) (h' : EndsBefore y z) :
    EndsBefore (x ++ y) z := by
  by_cases hy : y = []
  · subst hy
    rwa [List.append_nil]
  · intro c hc
    rw [h.left.foldl_append hy, Scan.step_behind, h' c hc, Scan.finish_behind, Scan.enter_behind]

theorem lexemes_eq_foldl (text : List Char) :
    lexemes text = (text.foldl Scan.step .start).lexemes := by
  rw [lexemes, Token.ofText, Scan.lexemes, List.map_reverse]

theorem lexemes_append {x y : List Char} (h : EndsBefore x y) :
    lexemes (x ++ y) = lexemes x ++ lexemes y := by
  rw [lexemes, Token.ofText_append h, List.map_append, List.map_map]
  rfl

/-! ### Lines -/

/-- Lexemes without a character that can stand nowhere. -/
def StrayFree (ls : List Lexeme) : Prop := ∀ c, .stray c ∉ ls

theorem StrayFree.left {ls ls' : List Lexeme} (h : StrayFree (ls ++ ls')) : StrayFree ls :=
  fun c hc => h c (List.mem_append_left ls' hc)

theorem StrayFree.right {ls ls' : List Lexeme} (h : StrayFree (ls ++ ls')) : StrayFree ls' :=
  fun c hc => h c (List.mem_append_right ls hc)

/-- The lexemes of a line. -/
def lineLexemes (line : List Char) : List Lexeme := lexemes (line ++ ['\n'])

/-- The lexemes of some lines. -/
def lexemesOf (lines : List String) : List Lexeme :=
  lines.flatMap fun line => lineLexemes line.toList

theorem lexemesOf_append (lines more : List String) :
    lexemesOf (lines ++ more) = lexemesOf lines ++ lexemesOf more :=
  List.flatMap_append

theorem lexemesOf_singleton (line : String) : lexemesOf [line] = lineLexemes line.toList := by
  simp [lexemesOf]

theorem mode_append_newline (x : List Char) :
    ((x ++ ['\n']).foldl Scan.step .start).mode = .between := by
  rw [List.foldl_append]
  exact Scan.mode_step_newline _

theorem lexemes_append_newline (x y : List Char) :
    lexemes (x ++ '\n' :: y) = lineLexemes x ++ lexemes y := by
  rw [lineLexemes, ← lexemes_append (.of_mode (mode_append_newline x) y), List.append_assoc,
    List.singleton_append]

/-- A last line may lack its end. -/
theorem lineLexemes_eq {x : List Char} (h : StrayFree (lexemes x)) : lineLexemes x = lexemes x := by
  rw [lineLexemes, lexemes_eq_foldl, lexemes_eq_foldl, List.foldl_append]
  rw [lexemes_eq_foldl] at h
  generalize x.foldl Scan.step .start = s at h
  obtain ⟨mode, position, found⟩ := s
  cases mode with
  | between => rfl
  | atom p reversed => rfl
  | comment p => rfl
  | carriage p =>
    -- at the end of a text a carriage return ends no line
    exact absurd (by simp [Scan.lexemes, Scan.finish, Scan.strayToken]) (h ';')

/-- A line may end in a carriage return as well. -/
theorem lineLexemes_append_carriage {x : List Char} (h : StrayFree (lineLexemes (x ++ ['\r']))) :
    lineLexemes (x ++ ['\r']) = lineLexemes x := by
  simp only [lineLexemes, lexemes_eq_foldl, List.foldl_append] at h ⊢
  generalize x.foldl Scan.step .start = s at h
  obtain ⟨mode, position, found⟩ := s
  cases mode with
  | between => rfl
  | atom p reversed => rfl
  | comment p => rfl
  | carriage p =>
    -- the first carriage return ends no line
    have hlexemes : (Scan.step (Scan.step ⟨.carriage p, position, found⟩ '\r') '\n').lexemes
        = (found.map Token.lexeme).reverse ++ [.stray ';'] := by
      simp [Scan.lexemes, Scan.finish, Scan.strayToken, Scan.step, Scan.enter, Scan.opens,
        Text.isLayout]
    refine absurd ?_ (h ';')
    exact hlexemes ▸ List.mem_append_right _ List.mem_cons_self

theorem lexemes_reverse_append {reversed cs : List Char}
    (h : StrayFree (lexemes (reversed.reverse ++ cs))) :
    lexemes (reversed.reverse ++ cs) = lexemesOf (Shell.linesOf reversed cs) := by
  induction cs generalizing reversed with
  | nil =>
    rw [List.append_nil] at h ⊢
    cases reversed with
    | nil => rfl
    | cons c before =>
      rw [← lineLexemes_eq h]
      simp [lexemesOf, Shell.linesOf]
  | cons c cs ih =>
    by_cases hc : c = '\n'
    · -- the line is whole, and the text after it has lines of its own
      subst hc
      rw [lexemes_append_newline] at h ⊢
      have hrest : lexemes cs = lexemesOf (Shell.linesOf [] cs) := @ih [] h.right
      rw [hrest]
      cases reversed with
      | nil => simp [lexemesOf, Shell.linesOf]
      | cons c' before =>
        by_cases hc' : c' = '\r'
        · subst hc'
          rw [List.reverse_cons] at h ⊢
          rw [lineLexemes_append_carriage h.left]
          simp [lexemesOf, Shell.linesOf]
        · simp [lexemesOf, Shell.linesOf, hc']
    · have hmore : reversed.reverse ++ c :: cs = (c :: reversed).reverse ++ cs := by simp
      rw [hmore] at h ⊢
      rw [ih h]
      simp [lexemesOf, Shell.linesOf]

/-- The lexemes of a text are those of its lines. -/
theorem lexemes_eq_lexemesOf {cs : List Char} (h : StrayFree (lexemes cs)) :
    lexemes cs = lexemesOf (Shell.linesOf [] cs) :=
  @lexemes_reverse_append [] cs h

/-- A blank between tokens is layout or stray. -/
theorem Scan.opens_of_isBlank (p : Position) {c : Char} (hc : Text.isBlank c = true) :
    ∃ l, opens p c = (.between, l) ∧ ∀ x ∈ l.toList, x = .stray c := by
  have hne : ∀ d, Text.isBlank d = false → (c == d) = false := by
    intro d hd
    refine beq_false_of_ne ?_
    rintro rfl
    rw [hc] at hd
    cases hd
  have hquote : (c.toNat == 39) = false := by
    refine beq_false_of_ne fun h => ?_
    rw [Text.isBlank, h] at hc
    cases hc
  have hdelimiter : Text.isDelimiter c = true := by simp [Text.isDelimiter, hc]
  simp only [opens, hne ';' (by decide), hne '(' (by decide), hne '[' (by decide),
    hne ')' (by decide), hne ']' (by decide), hquote, hdelimiter]
  cases Text.isLayout c with
  | true => exact ⟨none, by simp, by simp⟩
  | false => exact ⟨some (.stray c), by simp, by simp⟩

theorem exists_stray_of_isBlank {cs : List Char} (hcs : ∀ c ∈ cs, Text.isBlank c = true)
    {l : Lexeme} (hl : l ∈ lexemes cs) : ∃ c, l = .stray c := by
  induction cs with
  | nil => cases hl
  | cons c cs ih =>
    obtain ⟨first, hopens, hfirst⟩ := Scan.opens_of_isBlank .start (hcs c List.mem_cons_self)
    obtain ⟨hmode, hlexemes⟩ := Scan.enter_eq_of_opens (s := .start) hopens []
    have hc : lexemes [c] = first.toList := by
      rw [lexemes_eq_foldl]
      exact hlexemes
    rw [← List.singleton_append, lexemes_append (EndsBefore.of_mode (x := [c]) hmode cs), hc] at hl
    rcases List.mem_append.1 hl with hl | hl
    · exact ⟨c, hfirst l hl⟩
    · exact ih (fun c' hc' => hcs c' (List.mem_cons_of_mem c hc')) hl

/-- A line of nothing but blanks has no lexemes. -/
theorem lineLexemes_of_isBlank {line : List Char} (hblank : ∀ c ∈ line, Text.isBlank c = true)
    (h : StrayFree (lineLexemes line)) : lineLexemes line = [] := by
  have hall : ∀ c ∈ line ++ ['\n'], Text.isBlank c = true := by
    intro c hc
    rcases List.mem_append.1 hc with hc | hc
    · exact hblank c hc
    · obtain rfl : c = '\n' := by simpa using hc
      decide
  refine List.eq_nil_iff_forall_not_mem.2 fun l hl => ?_
  obtain ⟨c, rfl⟩ := exists_stray_of_isBlank hall hl
  exact h c hl

/-- Lines put together. -/
def gathered (lines : List String) : String :=
  lines.foldl (fun text line => text ++ line ++ "\n") ""

theorem gathered_concat (lines : List String) (line : String) :
    gathered (lines ++ [line]) = gathered lines ++ line ++ "\n" := by
  rw [gathered, List.foldl_append]
  rfl

theorem toList_gathered (lines : List String) :
    (gathered lines).toList = lines.flatMap fun line => line.toList ++ ['\n'] := by
  induction lines using List.reverseRecOn with
  | nil => rfl
  | append_singleton lines line ih =>
    rw [gathered_concat, String.toList_append, String.toList_append, ih]
    simp

theorem lexemes_gathered (lines : List String) :
    lexemes (gathered lines).toList = lexemesOf lines := by
  rw [toList_gathered, lexemesOf]
  induction lines with
  | nil => rfl
  | cons line lines ih =>
    rw [List.flatMap_cons, List.flatMap_cons, List.append_assoc, List.singleton_append,
      lexemes_append_newline, ih]

/-! ### Cutting between data -/

/-- What was read while nothing was wrong: the data, last first, and what is open. -/
structure Draft where
  data : List Datum
  open? : Option (List Pending)

namespace Draft

def start : Draft := ⟨[], none⟩

/-- Go on after a lexeme that leads here. -/
def settle (d : Draft) : Settled → Draft
  | .whole datum => ⟨datum :: d.data, none⟩
  | .inside stack => ⟨d.data, some stack⟩

/-- Read one lexeme, if nothing is wrong with it. -/
def step (d : Draft) (l : Lexeme) : Option Draft :=
  if (Token.oversized? ⟨l, .start⟩).isSome then none
  else (Pending.accept ⟨l, .start⟩ (d.open?.getD [])).toOption.map d.settle

/-- The draft with data before it. -/
def after (d : Draft) (before : List Datum) : Draft := ⟨d.data ++ before, d.open?⟩

theorem step_after (d : Draft) (before : List Datum) (l : Lexeme) :
    (d.after before).step l = (d.step l).map (·.after before) := by
  have hsettle : (d.after before).settle = fun x => (d.settle x).after before := by
    funext x
    cases x <;> rfl
  simp only [step, hsettle]
  split
  · rfl
  · rw [Option.map_map]
    rfl

theorem foldlM_after (d : Draft) (before : List Datum) (ls : List Lexeme) :
    ls.foldlM step (d.after before) = (ls.foldlM step d).map (·.after before) := by
  induction ls generalizing d with
  | nil => rfl
  | cons l ls ih =>
    rw [List.foldlM_cons, List.foldlM_cons, step_after]
    cases d.step l with
    | none => rfl
    | some d' => exact ih d'

end Draft

/-- The draft of some lexemes. -/
def drafted (ls : List Lexeme) : Option Draft := ls.foldlM Draft.step .start

/-- Lexemes that are cut where no datum is open. -/
theorem drafted_append {ls : List Lexeme} {data : List Datum} (h : drafted ls = some ⟨data, none⟩)
    (more : List Lexeme) : drafted (ls ++ more) = (drafted more).map (·.after data) := by
  rw [drafted, List.foldlM_append]
  rw [drafted] at h
  rw [h, drafted, ← Draft.foldlM_after]
  rfl

/-- What follows is a draft of its own. -/
theorem exists_drafted_rest {ls more : List Lexeme} {data data' : List Datum}
    (h : drafted ls = some ⟨data, none⟩) (h' : drafted (ls ++ more) = some ⟨data', none⟩) :
    ∃ rest, drafted more = some ⟨rest, none⟩ ∧ data' = rest ++ data := by
  rw [drafted_append h] at h'
  obtain ⟨⟨rest, o⟩, hrest, heq⟩ := Option.map_eq_some_iff.1 h'
  obtain ⟨hdata, rfl⟩ := Draft.mk.inj heq
  exact ⟨rest, hrest, hdata.symm⟩

/-- If all is well to the end, it is well on the way. -/
theorem exists_drafted_of_append {ls more : List Lexeme} {d : Draft}
    (h : drafted (ls ++ more) = some d) : ∃ d', drafted ls = some d' := by
  rw [drafted, List.foldlM_append] at h
  obtain ⟨d', hd', -⟩ := Option.bind_eq_some_iff.1 h
  exact ⟨d', hd'⟩

theorem Draft.step_stray (d : Draft) (c : Char) : d.step (.stray c) = none := by
  have haccept : (Pending.accept ⟨.stray c, .start⟩ (d.open?.getD [])).toOption = none := by
    simp only [Pending.accept, Pending.begin]
    split <;> rfl
  rw [step, haccept]
  rfl

theorem strayFree_of_drafted {ls : List Lexeme} {d : Draft} (h : drafted ls = some d) :
    StrayFree ls := by
  intro c hc
  obtain ⟨before, after, rfl⟩ := List.append_of_mem hc
  rw [List.append_cons] at h
  obtain ⟨d', hd'⟩ := exists_drafted_of_append h
  rw [drafted, List.foldlM_append] at hd'
  obtain ⟨d₁, -, hstep⟩ := Option.bind_eq_some_iff.1 hd'
  rw [List.foldlM_cons, Draft.step_stray] at hstep
  cases hstep

/-! ### Drafts and readings -/

theorem Pending.toOption_accept (t : Token) (stack : List Pending) :
    (accept t stack).toOption = (accept ⟨t.lexeme, .start⟩ stack).toOption := by
  obtain ⟨lexeme, position⟩ := t
  cases lexeme with
  | closing shape =>
    cases stack with
    | nil => rfl
    | cons top stack =>
      cases top with
      | quote => rfl
      | list opened reversed =>
        simp only [accept, close]
        split <;> rfl
  | quote =>
    simp only [accept, begin]
    split
    · rfl
    · split <;> rfl
  | _ =>
    simp only [accept, begin]
    split <;> rfl

theorem Token.isSome_oversized? (t : Token) :
    (oversized? ⟨t.lexeme, .start⟩).isSome = t.oversized?.isSome := by
  obtain ⟨lexeme, position⟩ := t
  cases lexeme with
  | atom text =>
    simp only [oversized?]
    split <;> rfl
  | _ => rfl

theorem mapM_eq_some_iff {α β : Type} {f : α → Option β} {as : List α} {bs : List β} :
    as.mapM f = some bs ↔ as.map f = bs.map some := by
  induction as generalizing bs with
  | nil => cases bs <;> simp
  | cons a as ih =>
    rw [List.mapM_cons]
    constructor
    · intro h
      obtain ⟨b, hb, h⟩ := Option.bind_eq_some_iff.1 h
      obtain ⟨bs', hbs', h⟩ := Option.bind_eq_some_iff.1 h
      cases h
      rw [List.map_cons, List.map_cons, hb, ih.1 hbs']
    · intro h
      obtain ⟨b, bs, rfl, hb, hbs⟩ := List.map_eq_cons_iff.1 h.symm
      rw [← hb, ih.2 hbs.symm]
      rfl

def Item.datum? (i : Item) : Option Datum := i.result.toOption

/-- What is open, if nothing is wrong. -/
def Progress.open? : Progress → Option (Option (List Pending))
  | .between => some none
  | .within _ stack none => some (some stack)
  | _ => none

namespace Reading

/-- What was read, if nothing was wrong. -/
def draft? (r : Reading) : Option Draft :=
  (r.items.mapM Item.datum?).bind fun data => r.progress.open?.map (Draft.mk data)

theorem draft?_eq_some_iff {r : Reading} {data : List Datum} {o : Option (List Pending)} :
    r.draft? = some ⟨data, o⟩ ↔
      r.items.map Item.datum? = data.map some ∧ r.progress.open? = some o := by
  rw [draft?, ← mapM_eq_some_iff]
  constructor
  · intro h
    obtain ⟨data', hdata, hopen⟩ := Option.bind_eq_some_iff.1 h
    obtain ⟨o', ho, heq⟩ := Option.map_eq_some_iff.1 hopen
    cases heq
    exact ⟨hdata, ho⟩
  · rintro ⟨hdata, ho⟩
    rw [hdata, Option.bind_some, ho, Option.map_some]

theorem draft?_take (items : List Item) (p : Position) (stack : List Pending)
    (oversized : Option Fault) (t : Token) :
    (take items p stack oversized t).draft? =
      if oversized.isSome || t.oversized?.isSome then none
      else (items.mapM Item.datum?).bind fun data =>
        (Pending.accept t stack).toOption.map (Draft.settle ⟨data, none⟩) := by
  unfold take
  cases hdata : items.mapM Item.datum? with
  | none =>
    -- an item before is wrong already
    cases Pending.accept t stack with
    | error fault => simp [draft?, hdata]
    | ok settled => cases settled <;> simp [draft?, hdata]
  | some data =>
    cases Pending.accept t stack with
    | error fault => simp [draft?, Progress.open?, Except.toOption]
    | ok settled =>
      cases oversized with
      | some fault =>
        cases settled <;>
          simp [draft?, hdata, Item.datum?, Item.result, Except.toOption, Progress.open?]
      | none =>
        cases t.oversized? <;> cases settled <;>
          simp [draft?, hdata, Item.datum?, Item.result, Except.toOption, Progress.open?,
            Draft.settle]

theorem draft?_step (r : Reading) (t : Token) :
    (r.step t).draft? = r.draft?.bind fun d => d.step t.lexeme := by
  obtain ⟨items, progress⟩ := r
  have hstep : ∀ d : Draft, d.step t.lexeme = if t.oversized?.isSome then none
      else (Pending.accept t (d.open?.getD [])).toOption.map d.settle := by
    intro d
    rw [Draft.step, Token.isSome_oversized?, ← Pending.toOption_accept]
  have hsettle : ∀ data o, Draft.settle ⟨data, o⟩ = Draft.settle ⟨data, none⟩ := by
    intro data o
    funext settled
    cases settled <;> rfl
  simp only [hstep]
  cases progress with
  | stopped => simp [step, draft?, Progress.open?]
  | between =>
    rw [step, draft?_take, draft?]
    cases items.mapM Item.datum? <;> simp [Progress.open?]
  | within p stack oversized =>
    rw [step, draft?_take, draft?]
    cases oversized <;> cases items.mapM Item.datum? <;>
      simp [Progress.open?, hsettle _ (some stack)]

/-- The draft of the tokens after a reading. -/
theorem draft?_foldl (ts : List Token) (r : Reading) :
    (ts.foldl step r).draft?
      = r.draft?.bind fun d => (ts.map Token.lexeme).foldlM Draft.step d := by
  induction ts generalizing r with
  | nil => cases h : r.draft? <;> simp [h]
  | cons t ts ih =>
    rw [List.foldl_cons, ih, draft?_step]
    cases r.draft? <;> rfl

/-- A reading that has stopped has a fault to show for it. -/
def Accounts (r : Reading) : Prop := r.progress = .stopped → ∃ i ∈ r.items, i.datum? = none

theorem accounts_step {r : Reading} (h : r.Accounts) (t : Token) : (r.step t).Accounts := by
  have htake : ∀ items p stack oversized, (take items p stack oversized t).Accounts := by
    intro items p stack oversized hstopped
    unfold take at hstopped ⊢
    split at hstopped
    · refine ⟨_, List.mem_cons_self, ?_⟩
      cases oversized <;> rfl
    · cases hstopped
    · cases hstopped
  unfold step
  split
  · exact h
  · exact htake _ _ _ _
  · exact htake _ _ _ _

theorem accounts_foldl (ts : List Token) {r : Reading} (h : r.Accounts) :
    (ts.foldl step r).Accounts := by
  induction ts generalizing r with
  | nil => exact h
  | cons t ts ih => exact ih (accounts_step h t)

/-- The reading of a whole text. -/
def ofText (text : List Char) : Reading := (Token.ofText text).foldl step .start

theorem draft?_ofText (text : List Char) : (ofText text).draft? = drafted (lexemes text) := by
  rw [ofText, draft?_foldl]
  rfl

end Reading

/-! ### Drafts and texts -/

section

variable {text : List Char} {data : List Datum}

theorem open?_eq_some_none_iff {p : Progress} : p.open? = some none ↔ p = .between := by
  cases p with
  | within start stack oversized => cases oversized <;> simp [Progress.open?]
  | between => simp [Progress.open?]
  | stopped => simp [Progress.open?]

theorem datum?_of_drafted (h : drafted (lexemes text) = some ⟨data, none⟩) :
    (Item.ofText text).map Item.datum? = data.reverse.map some := by
  rw [← Reading.draft?_ofText, Reading.draft?_eq_some_iff, open?_eq_some_none_iff] at h
  have hitems : Item.ofText text = (Reading.ofText text).items.reverse := by
    show ((Reading.ofText text).finish _).reverse = _
    rw [Reading.finish, h.2]
  rw [hitems, List.map_reverse, h.1, List.map_reverse]

theorem exists_drafted (h : ∀ i ∈ Item.ofText text, i.datum? ≠ none) :
    ∃ data, drafted (lexemes text) = some ⟨data, none⟩ := by
  have hitems : Item.ofText text = ((Reading.ofText text).finish text.length).reverse := rfl
  have haccounts : (Reading.ofText text).Accounts :=
    Reading.accounts_foldl _ fun hstopped => nomatch hstopped
  simp only [← Reading.draft?_ofText, Reading.draft?_eq_some_iff, open?_eq_some_none_iff]
  rw [hitems] at h
  generalize Reading.ofText text = r at h haccounts
  obtain ⟨items, progress⟩ := r
  cases progress with
  | stopped =>
    -- the fault that stopped the reading is among the items
    obtain ⟨i, hi, hdatum⟩ := haccounts rfl
    exact absurd hdatum (h i (List.mem_reverse.2 hi))
  | within p stack oversized =>
    -- the last item says that the text ends too early
    refine absurd ?_ (h _ (List.mem_reverse.2 List.mem_cons_self))
    cases oversized <;> rfl
  | between =>
    have hall : ∀ i ∈ items, i.datum? ≠ none := fun i hi => h i (List.mem_reverse.2 hi)
    refine ⟨items.filterMap Item.datum?, ?_, rfl⟩
    clear h haccounts
    induction items with
    | nil => rfl
    | cons i items ih =>
      obtain ⟨d, hd⟩ := Option.ne_none_iff_exists'.1 (hall i List.mem_cons_self)
      rw [List.map_cons, List.filterMap_cons_some hd, List.map_cons, hd,
        ih fun i' hi' => hall i' (List.mem_cons_of_mem i hi')]

/-- A text that ends within a datum has an item that says so. -/
theorem exists_endOfText {stack : List Pending}
    (h : drafted (lexemes text) = some ⟨data, some stack⟩) :
    ∃ i ∈ Item.ofText text, i.result = .error ⟨.endOfText, text.length⟩ := by
  rw [← Reading.draft?_ofText, Reading.draft?_eq_some_iff] at h
  obtain ⟨-, hopen⟩ := h
  have hitems : Item.ofText text = ((Reading.ofText text).finish text.length).reverse := rfl
  rw [hitems]
  generalize Reading.ofText text = r at hopen
  obtain ⟨items, progress⟩ := r
  cases progress with
  | stopped => cases hopen
  | between => cases hopen
  | within p stack oversized =>
    cases oversized with
    | some fault => cases hopen
    | none => exact ⟨_, List.mem_reverse.2 List.mem_cons_self, rfl⟩

end

/-- The datum of an entry. -/
def Entry.datum? (entry : Entry) : Option Datum := entry.result.toOption

theorem datum?_readAll (source input : String) :
    (readAll source input).map Entry.datum? = (Item.ofText input.toList).map Item.datum? := by
  rw [readAll, List.map_map]
  refine List.map_congr_left fun i _ => ?_
  simp only [Function.comp, Entry.datum?, Item.datum?]
  cases i.result <;> rfl

theorem exists_drafted_of_readAll {source input : String}
    (h : ∀ entry ∈ readAll source input, ∃ d, entry.result = .ok d) :
    ∃ data, drafted (lexemes input.toList) = some ⟨data, none⟩ := by
  refine exists_drafted fun i hi hnone => ?_
  have hmem : i.datum? ∈ (readAll source input).map Entry.datum? := by
    rw [datum?_readAll]
    exact List.mem_map_of_mem hi
  obtain ⟨entry, hentry, heq⟩ := List.mem_map.1 hmem
  obtain ⟨d, hd⟩ := h entry hentry
  rw [hnone, Entry.datum?, hd] at heq
  cases heq

theorem map_result_eq_iff {entries : List Entry} {data : List Datum} :
    entries.map Entry.result = data.map .ok ↔ entries.map Entry.datum? = data.map some := by
  have hentry : ∀ (e : Entry) (d : Datum), e.result = .ok d ↔ e.datum? = some d := by
    intro e d
    unfold Entry.datum?
    cases e.result <;> simp [Except.toOption]
  induction entries generalizing data with
  | nil => cases data <;> simp
  | cons e entries ih =>
    cases data with
    | nil => simp
    | cons d data => simp only [List.map_cons, List.cons.injEq, hentry, ih]

/-- A text is read as some data, without error, exactly if its lexemes are drafted so. -/
theorem results_readAll {source input : String} {data : List Datum} :
    (readAll source input).map Entry.result = data.map .ok ↔
      drafted (lexemes input.toList) = some ⟨data.reverse, none⟩ := by
  rw [map_result_eq_iff]
  constructor
  · intro h
    have hok : ∀ entry ∈ readAll source input, ∃ d, entry.result = .ok d := by
      intro entry hentry
      have hmem : entry.result ∈ data.map .ok := by
        rw [← map_result_eq_iff.2 h]
        exact List.mem_map_of_mem hentry
      obtain ⟨d, -, hd⟩ := List.mem_map.1 hmem
      exact ⟨d, hd.symm⟩
    obtain ⟨data', hdraft⟩ := exists_drafted_of_readAll hok
    rw [datum?_readAll, datum?_of_drafted hdraft] at h
    rw [hdraft, ← (List.map_inj_right fun _ _ => Option.some.inj).1 h, List.reverse_reverse]
  · intro h
    rw [datum?_readAll, datum?_of_drafted h, List.reverse_reverse]

theorem kind_report_endOfText (f : Fault) (text : List Char) (h : f.obstacle = .endOfText) :
    (f.report text).kind = .incomplete := by
  unfold Fault.report
  rw [h]
  cases text.drop f.offset <;> rfl

/-- Whether a text is complete can be told from its draft. -/
theorem needsMore_eq {input : String} {d : Draft} (h : drafted (lexemes input.toList) = some d) :
    needsMore input = d.open?.isSome := by
  obtain ⟨data, o⟩ := d
  cases o with
  | none =>
    have hdata := datum?_of_drafted h
    rw [← datum?_readAll ""] at hdata
    refine List.any_eq_false.2 fun entry hentry => ?_
    have hmem : entry.datum? ∈ data.reverse.map some := by
      rw [← hdata]
      exact List.mem_map_of_mem hentry
    obtain ⟨d, -, hd⟩ := List.mem_map.1 hmem
    cases hresult : entry.result with
    | ok d => simp
    | error e => simp [Entry.datum?, hresult, Except.toOption] at hd
  | some stack =>
    obtain ⟨i, hi, hresult⟩ := exists_endOfText h
    refine List.any_eq_true.2 ⟨_, List.mem_map_of_mem hi, ?_⟩
    simp only [hresult, Except.mapError, SyntaxError.locate, beq_iff_eq]
    exact kind_report_endOfText _ _ rfl

end Primer
