/-
Primer/Proofs/Offsets.lean

Where the tokens of a text stand.

A text is read from the front, so nothing that was found goes beyond the place where
reading has come to (`Scan.UpToHere`).  For a whole text this bounds all its tokens
(`stop_le_of_mem`), and a line end is no part of any (`stop_lt_of_mem`).  Where nothing
is open a text and its continuation share out the tokens (`exists_ofText_append`).
-/
import Primer.Proofs.Cutting

namespace Primer

/-- Tokens that end before a place of a text. -/
def Token.UpTo (here : Nat) (ts : List Token) : Prop := ∀ t ∈ ts, t.stop ≤ here

theorem Token.UpTo.mono {here here' : Nat} {ts : List Token} (h : UpTo here ts)
    (hle : here ≤ here') : UpTo here' ts :=
  fun t ht => Nat.le_trans (h t ht) hle

theorem Token.UpTo.cons {here : Nat} {t : Token} {ts : List Token} (ht : t.stop ≤ here)
    (h : UpTo here ts) : UpTo here (t :: ts) :=
  List.forall_mem_cons.2 ⟨ht, h⟩

/-- What is being read goes on to here. -/
def Mode.UpTo (here : Nat) : Mode → Prop
  | .between => True
  | .atom p reversed => p.offset + reversed.length = here
  | .comment p => p.offset < here
  | .carriage p => p.offset < here

namespace Scan

/-- Nothing that was read goes beyond the place where reading has come to. -/
structure UpToHere (s : Scan) : Prop where
  mode : s.mode.UpTo s.position.offset
  found : Token.UpTo s.position.offset s.found

/-- A character between tokens is a token by itself, or the first one of something. -/
theorem upTo_opens {p : Position} {c : Char} {mode : Mode} {l : Option Lexeme}
    (ho : opens p c = (mode, l)) : mode.UpTo (p.offset + 1) ∧ ∀ lexeme ∈ l, lexeme.size = 1 := by
  unfold opens at ho
  repeat' split at ho
  all_goals
    cases ho
    simp [Mode.UpTo, Lexeme.size]

theorem upToHere_enter {s : Scan} {ts : List Token} (hts : Token.UpTo s.position.offset ts)
    (c : Char) : (s.enter c ts).UpToHere := by
  have hts' := hts.mono (Nat.le_succ _)
  unfold enter
  split
  · next mode ho => exact ⟨(upTo_opens ho).1, hts'⟩
  · next mode lexeme ho =>
    obtain ⟨hmode, hsize⟩ := upTo_opens ho
    have hstop : s.position.offset + lexeme.size ≤ s.position.offset + 1 :=
      Nat.add_le_add_left (Nat.le_of_eq (hsize lexeme rfl)) _
    exact ⟨hmode, hts'.cons hstop⟩

theorem UpToHere.finish {s : Scan} (h : s.UpToHere) : Token.UpTo s.position.offset s.finish := by
  obtain ⟨mode, position, found⟩ := s
  obtain ⟨hmode, hfound⟩ := h
  cases mode with
  | between => exact hfound
  | comment p => exact hfound
  | atom p reversed =>
    refine hfound.cons ?_
    show p.offset + reversed.reverse.length ≤ position.offset
    rw [List.length_reverse]
    exact Nat.le_of_eq hmode
  | carriage p => exact hfound.cons hmode

theorem UpToHere.step {s : Scan} (h : s.UpToHere) (c : Char) : (s.step c).UpToHere := by
  have henter : (s.enter c s.finish).UpToHere := upToHere_enter h.finish c
  obtain ⟨mode, position, found⟩ := s
  obtain ⟨hmode, hfound⟩ := h
  have hfound' : Token.UpTo (position.offset + 1) found := hfound.mono (Nat.le_succ _)
  cases mode with
  | between => exact henter
  | atom p reversed =>
    -- a delimiter ends the atom, and any other character belongs to it
    simp only [Scan.step]
    split
    · exact henter
    · have hmore : p.offset + (reversed.length + 1) = position.offset + 1 := congrArg (· + 1) hmode
      exact ⟨hmore, hfound'⟩
  | comment p =>
    simp only [Scan.step]
    refine ⟨?_, hfound'⟩
    dsimp only
    split
    · trivial
    · split <;> exact Nat.lt_succ_of_lt hmode
  | carriage p =>
    simp only [Scan.step]
    split
    · exact ⟨trivial, hfound'⟩
    · exact henter

theorem UpToHere.foldl {s : Scan} (h : s.UpToHere) (cs : List Char) :
    (cs.foldl Scan.step s).UpToHere := by
  induction cs generalizing s with
  | nil => exact h
  | cons c cs ih => exact ih (h.step c)

theorem offset_foldl (text : List Char) :
    (text.foldl step .start).position.offset = text.length := by
  rw [position_foldl]
  rfl

/-- The end of a line is no token. -/
theorem mem_finish_of_mem_found_step_newline {s : Scan} {t : Token}
    (h : t ∈ (s.step '\n').found) : t ∈ s.finish := by
  obtain ⟨mode, position, found⟩ := s
  cases mode with
  | between => exact h
  | atom p reversed => exact h
  | comment p => exact h
  | carriage p => exact List.mem_cons_of_mem _ h

end Scan

/-! ### The tokens of a text -/

theorem size_pos_of_mem_lexemes {text : List Char} {l : Lexeme} (h : l ∈ lexemes text) :
    0 < l.size := by
  cases l with
  | atom atom => exact List.length_pos_of_ne_nil (isAtom_of_mem_lexemes h).nonempty
  | _ => exact Nat.one_pos

theorem stop_le_of_mem {text : List Char} {t : Token} (h : t ∈ Token.ofText text) :
    t.stop ≤ text.length := by
  have hstart : Scan.start.UpToHere := ⟨trivial, List.forall_mem_nil _⟩
  have hfinish := (hstart.foldl text).finish
  rw [Scan.offset_foldl] at hfinish
  exact hfinish t (List.mem_reverse.1 h)

theorem mode_of_getLast? {text : List Char} (h : text.getLast? = some '\n') :
    (text.foldl Scan.step .start).mode = .between := by
  obtain ⟨line, rfl⟩ := List.getLast?_eq_some_iff.1 h
  exact mode_append_newline line

/-- After the last token of a line comes at least the end of the line. -/
theorem stop_lt_of_mem {text : List Char} (h : text.getLast? = some '\n') {t : Token}
    (ht : t ∈ Token.ofText text) : t.stop < text.length := by
  obtain ⟨line, rfl⟩ := List.getLast?_eq_some_iff.1 h
  have hmem : t ∈ ((line.foldl Scan.step .start).step '\n').finish := by
    rw [Token.ofText, List.foldl_append] at ht
    exact List.mem_reverse.1 ht
  have hline : t ∈ Token.ofText line := by
    rw [Scan.finish, Scan.mode_step_newline] at hmem
    exact List.mem_reverse.2 (Scan.mem_finish_of_mem_found_step_newline hmem)
  rw [List.length_append, List.length_singleton]
  exact Nat.lt_succ_of_le (stop_le_of_mem hline)

/-- A text that is cut where nothing is open: the tokens of the first part, and after
them those of the second, which stand after the cut. -/
theorem exists_ofText_append {x : List Char}
    (h : (x.foldl Scan.step .start).mode = .between) (y : List Char) :
    ∃ later, Token.ofText (x ++ y) = Token.ofText x ++ later ∧
      later.map Token.lexeme = lexemes y ∧ ∀ t ∈ later, x.length ≤ t.offset := by
  refine ⟨(Token.ofText y).map (Token.behind x), Token.ofText_append (.of_mode h y), ?_, ?_⟩
  · rw [List.map_map]
    rfl
  · intro t ht
    obtain ⟨t', -, rfl⟩ := List.mem_map.1 ht
    exact Nat.le_add_right _ _

end Primer
