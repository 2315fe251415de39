/-
Primer/Proofs/Separators.lean

What may be put between the tokens of a text.

A blank or a comment line that is put where one token has ended and the next has not
begun leaves all lexemes of the text as they are, if it is atmosphere.  But a
separator need not be atmosphere.  Every blank ends an atom, and only space, tab,
carriage return and line feed are skipped; and a comment with a carriage return ahead
of the end of its line is no comment.  Such a separator is a stray character itself
or has one in it, so it is not read over (`separator_is_insignificant_iff`).
-/
import Primer.Proofs.Grammar

namespace Primer

/-- A blank, or a semicolon and the characters up to the end of the line. -/
inductive Separator : List Char → Prop
  | blank {c : Char} : Text.isBlank c = true → Separator [c]
  | comment {body : List Char} : '\n' ∉ body → Separator (';' :: (body ++ ['\n']))

/-- The cut between two parts of a text falls neither inside an atom nor inside a comment
or the end of its line.  A comment that lacks its end goes on after the cut. -/
def CutBetween (u v : List Char) : Prop :=
  match (u.foldl Scan.step .start).mode with
  | .between => True
  | .atom _ _ => Grammar.EndsAtom v
  | .comment _ => False
  | .carriage _ => False

namespace CutBetween

variable {u v : List Char}

theorem settled (h : CutBetween u v) : (u.foldl Scan.step .start).Settled := by
  unfold CutBetween at h
  cases hmode : (u.foldl Scan.step .start).mode with
  | between => exact .inl hmode
  | atom p reversed => exact .inr ⟨p, reversed, hmode⟩
  | comment p => simp only [hmode] at h
  | carriage p => simp only [hmode] at h

theorem endsBefore (h : CutBetween u v) : EndsBefore u v := by
  have hsettled := h.settled
  unfold CutBetween at h
  cases hmode : (u.foldl Scan.step .start).mode with
  | between => exact .of_mode hmode v
  | atom p reversed =>
    simp only [hmode] at h
    exact .of_settled hsettled h
  | comment p => simp only [hmode] at h
  | carriage p => simp only [hmode] at h

end CutBetween

namespace Separator

variable {w : List Char}

/-- A separator ends an atom before it. -/
theorem endsAtom (h : Separator w) (v : List Char) : Grammar.EndsAtom (w ++ v) := by
  intro c hc
  cases h with
  | blank hblank =>
    obtain rfl : _ = c := Option.some.inj hc
    simp [Text.isDelimiter, hblank]
  | comment =>
    obtain rfl : _ = c := Option.some.inj hc
    rfl

/-- After a separator nothing is open. -/
theorem mode_eq (h : Separator w) : (w.foldl Scan.step .start).mode = .between := by
  cases h with
  | blank hblank =>
    obtain ⟨l, hopens, -⟩ := Scan.opens_of_isBlank .start hblank
    exact (Scan.enter_eq_of_opens hopens []).1
  | @comment body => exact mode_append_newline (';' :: body)

/-- The lexemes of a text with a separator in it. -/
theorem lexemes_eq (h : Separator w) {u v : List Char} (hcut : CutBetween u v) :
    lexemes (u ++ (w ++ v)) = lexemes u ++ (lexemes w ++ lexemes v) := by
  have hends : EndsBefore u (w ++ v) := .of_settled hcut.settled (h.endsAtom v)
  rw [lexemes_append hends, lexemes_append (.of_mode h.mode_eq v)]

/-- A separator without strays is atmosphere. -/
theorem atmosphere (h : Separator w) (hstray : StrayFree (lexemes w)) :
    Grammar.Atmosphere w [] := by
  refine Grammar.atmosphere_of_lexemes_eq_nil ?_
  cases h with
  | @blank c hblank =>
    -- a lexeme of blanks can only be a stray
    refine List.eq_nil_iff_forall_not_mem.2 fun l hl => ?_
    obtain ⟨d, rfl⟩ := exists_stray_of_isBlank (List.forall_mem_singleton.2 hblank) hl
    exact hstray d hl
  | @comment body hbody =>
    obtain ⟨run, tail, rfl, hin, hout⟩ := Grammar.exists_run (fun c => c != '\r') body
    rw [List.mem_append, not_or] at hbody
    have hrun : ∀ c ∈ run, c ≠ '\r' ∧ c ≠ '\n' := by
      refine fun c hc => ⟨by simpa using hin c hc, ?_⟩
      rintro rfl
      exact hbody.1 hc
    rw [List.append_assoc] at hstray ⊢
    cases tail with
    | nil => exact Grammar.lexemes_comment hrun .feed
    | cons c tail =>
      obtain rfl : c = '\r' := by simpa using hout c rfl
      cases tail with
      | nil => exact Grammar.lexemes_comment hrun .carriage
      | cons d tail =>
        -- a carriage return that does not end the line
        have hd : '\n' ∉ (d :: tail ++ ['\n']).head? := by
          intro hd
          refine hbody.2 ?_
          rw [Option.some.inj hd]
          exact List.mem_cons_of_mem _ List.mem_cons_self
        have hstarts := Grammar.starts_stray hrun hd
        rw [List.cons_append, hstarts.lexemes_eq] at hstray
        exact absurd List.mem_cons_self (hstray ';')

end Separator

/-- **Separators between tokens.**  Take a text that is read as some data without error,
and a cut between two of its parts that falls neither inside an atom nor inside a
comment or its line end.  With a separator at the cut it is read as the same data,
without error, exactly if the separator is atmosphere. -/
theorem separator_is_insignificant_iff {source u v w : String} {data : List Datum}
    (hread : (readAll source (u ++ v)).map Entry.result = data.map .ok)
    (hcut : CutBetween u.toList v.toList) (hw : Separator w.toList) :
    (readAll source (u ++ w ++ v)).map Entry.result = data.map .ok ↔
      Grammar.Atmosphere w.toList [] := by
  have hlexemes := hw.lexemes_eq hcut
  rw [results_readAll, String.toList_append, lexemes_append hcut.endsBefore] at hread
  rw [results_readAll, String.toList_append, String.toList_append, List.append_assoc,
    hlexemes]
  constructor
  · intro h
    exact hw.atmosphere (strayFree_of_drafted h).right.left
  · intro h
    have hnil : lexemes w.toList = [] := h.lexemes_eq
    rw [hnil, List.nil_append, hread]

/-- A comment line whose carriage return ends the line, between the items of a list. -/
theorem separator_is_insignificant_iff_comment :
    (readAll "in" "('a(b))").map Entry.result
        = [.list [.list [.symbol "quote", .symbol "a"], .list [.symbol "b"]]].map .ok ∧
      CutBetween "('a".toList "(b))".toList ∧ Separator ";; c\r\n".toList ∧
      ((readAll "in" ("('a" ++ ";; c\r\n" ++ "(b))")).map Entry.result
        = [.list [.list [.symbol "quote", .symbol "a"], .list [.symbol "b"]]].map .ok ↔
          Grammar.Atmosphere ";; c\r\n".toList []) := by
  have hread : (readAll "in" ("('a" ++ "(b))")).map Entry.result
      = [.list [.list [.symbol "quote", .symbol "a"], .list [.symbol "b"]]].map .ok := rfl
  have hcut : CutBetween "('a".toList "(b))".toList := by
    show Grammar.EndsAtom _
    intro c hc
    obtain rfl : '(' = c := Option.some.inj hc
    rfl
  have hw : Separator ";; c\r\n".toList := @Separator.comment "; c\r".toList (by decide)
  exact ⟨hread, hcut, hw, separator_is_insignificant_iff hread hcut hw⟩

/-- A no-break space ends an atom, but it is not skipped. -/
theorem noBreakSpace_is_not_skipped :
    (readAll "in" "a b").map Entry.result = [.symbol "a", .symbol "b"].map .ok ∧
      CutBetween "a".toList " b".toList ∧ Separator "\u00a0".toList ∧
      (readAll "in" ("a" ++ "\u00a0" ++ " b")).map Entry.datum? = [some (.symbol "a"), none] :=
  ⟨rfl, fun _ hc => Option.some.inj hc ▸ rfl, .blank rfl, rfl⟩

end Primer
