/-
Primer/Proofs/Recovery.lean

A numeral out of range costs the datum that it stands in and nothing else.

The measure is a reading that accepts numerals of any size: the pieces of a text in
which an atom may stand for what `Grammar.AnySize` says.  This is the same grammar
with one more kind of atom, and it knows nothing of the reader.  Each piece gives one
entry (`Piece.ReportedBy`):

* the datum or the fault of the piece, if its numerals are in range;
* otherwise a report that names the first numeral out of range.

A piece with a fault is the last one, and of its tokens only those before the fault
count, so a numeral after the fault is never named.
-/
import Primer.Proofs.Grammar

namespace Primer

namespace Grammar

/-- A numeral out of range. -/
def Oversized (text : List Char) : Prop :=
  ∃ i : Int, Numeral text i ∧ (i < -2147483648 ∨ 2147483647 < i)

/-- An atom and what it stands for when numerals of any size are accepted.  There is
no number for one out of range, so it stands for its spelling. -/
inductive AnySize : List Char → Datum → Prop
  | denoted {text : List Char} {d : Datum} : AtomDenotes text d → AnySize text d
  | oversized {text : List Char} : Oversized text → AnySize text (.symbol (String.ofList text))

theorem isOversized_iff {text : List Char} : isOversized text = true ↔ Oversized text := by
  simp only [Oversized, ← numeral?_eq_some_iff, isOversized]
  cases Number.numeral? text with
  | none => simp
  | some i => simp [Number.ofInt?_eq_none_iff]

theorem ofAtom_of_oversized {text : List Char} (h : Oversized text) :
    Datum.ofAtom text = .symbol (String.ofList text) := by
  obtain ⟨i, hnumeral, hrange⟩ := h
  rw [ofAtom_of_numeral hnumeral, Number.ofInt?_eq_none_iff.2 hrange]
  rfl

/-- What an atom stands for is what it is read as. -/
theorem anySize_iff {text : List Char} {d : Datum} : AnySize text d ↔ ReadAs text d := by
  constructor
  · intro h
    cases h with
    | denoted hd => exact (atomDenotes_iff.1 hd).2
    | oversized hsize => exact ofAtom_of_oversized hsize
  · rintro rfl
    cases hsize : isOversized text with
    | false => exact .denoted (atomDenotes_iff.2 ⟨hsize, rfl⟩)
    | true =>
      have hoversized := isOversized_iff.1 hsize
      rw [ofAtom_of_oversized hoversized]
      exact .oversized hoversized

end Grammar

/-! ### Tokens -/

/-- A token that is a numeral out of range. -/
def Token.Oversized (t : Token) : Prop := ∃ text, t.lexeme = .atom text ∧ Grammar.Oversized text

theorem Token.oversized?_eq_none {t : Token} (h : ¬ t.Oversized) : t.oversized? = none := by
  cases hl : t.lexeme with
  | atom text =>
    have hsize : ¬ isOversized text = true := fun hsize =>
      h ⟨text, hl, Grammar.isOversized_iff.1 hsize⟩
    simp only [oversized?, hl, if_neg hsize]
  | _ => rw [oversized?, hl]

theorem Token.oversized?_eq_some {t : Token} {text : List Char} (hl : t.lexeme = .atom text)
    (h : Grammar.Oversized text) : t.oversized? = some ⟨.oversized text, t.offset⟩ := by
  simp only [oversized?, hl, Grammar.isOversized_iff.2 h, if_true]

/-! ### Entries -/

/-- The entry for a piece of a text with this source. -/
structure Piece.ReportedBy (source : String) (text : List Char) (piece : Piece)
    (entry : Entry) : Prop where
  location : entry.location = ⟨source, piece.start.line⟩
  datum : ∀ d, piece.body = .ok d → (∀ t ∈ piece.tokens, ¬ t.Oversized) → entry.result = .ok d
  fault : ∀ f, piece.body = .error f → (∀ t ∈ piece.tokens, ¬ t.Oversized) →
    entry.result = .error (((f.since piece.start.offset).report
      (text.drop piece.start.offset)).locate entry.location)
  oversized : ∀ before t after numeral, piece.tokens = before ++ t :: after →
    (∀ t' ∈ before, ¬ t'.Oversized) → t.lexeme = .atom numeral → Grammar.Oversized numeral →
      ∃ e, entry.result = .error e ∧ e.kind = .limit ∧
        e.message = "arithmetic overflow in integer literal " ++ String.ofList numeral ∧
        e.found = some (String.ofList numeral)

theorem Piece.findSome?_tokens_eq_none {piece : Piece}
    (h : ∀ t ∈ piece.tokens, ¬ t.Oversized) :
    piece.tokens.findSome? Token.oversized? = none :=
  List.findSome?_eq_none_iff.2 fun t ht => Token.oversized?_eq_none (h t ht)

/-- The entry that is made of the item of a piece. -/
theorem Piece.reportedBy_item (source : String) (text : List Char) (piece : Piece) :
    piece.ReportedBy source text
      ⟨⟨source, piece.start.line⟩, piece.item.result.mapError fun fault =>
        ((fault.since piece.start.offset).report (text.drop piece.start.offset)).locate
          ⟨source, piece.start.line⟩⟩ where
  location := rfl
  datum d hbody hrange := by
    simp only [Piece.item, Item.result, piece.findSome?_tokens_eq_none hrange, hbody,
      Except.mapError]
  fault f hbody hrange := by
    simp only [Piece.item, Item.result, piece.findSome?_tokens_eq_none hrange, hbody,
      Except.mapError]
  oversized before t after numeral htokens hbefore hl hsize := by
    have hfirst : piece.tokens.findSome? Token.oversized?
        = some ⟨.oversized numeral, t.offset⟩ := by
      have hnone : before.findSome? Token.oversized? = none :=
        List.findSome?_eq_none_iff.2 fun t' ht' => Token.oversized?_eq_none (hbefore t' ht')
      rw [htokens, List.findSome?_append, hnone, Option.none_or, List.findSome?_cons,
        Token.oversized?_eq_some hl hsize]
    simp only [Piece.item, Item.result, hfirst, Except.mapError]
    exact ⟨_, rfl, rfl, rfl, rfl⟩

/-- Every text falls into pieces in which numerals of any size are accepted, and the
entries are those of the pieces, one for each and in order. -/
theorem oversized_numeral_costs_its_datum (source input : String) :
    (∃ pieces, Pieces Grammar.AnySize input.length (Token.ofText input.toList) pieces) ∧
      ∀ pieces, Pieces Grammar.AnySize input.length (Token.ofText input.toList) pieces →
        List.Forall₂ (Piece.ReportedBy source input.toList) pieces (readAll source input) := by
  constructor
  · have htotal : ∀ text, ∃ d, Grammar.AnySize text d := fun text =>
      ⟨.ofAtom text, Grammar.anySize_iff.2 rfl⟩
    exact exists_pieces htotal input.length (Token.ofText input.toList)
  · intro pieces hpieces
    rw [← String.length_toList] at hpieces
    have hitems := hpieces.items_eq fun _ _ => Grammar.anySize_iff.1
    rw [readAll, hitems, List.map_map, List.forall₂_map_right_iff, List.forall₂_same]
    exact fun piece _ => piece.reportedBy_item source input.toList

/-- Two data, each with a numeral out of range.  The first is whole, and the second is
closed by the wrong bracket. -/
theorem oversized_numeral_costs_its_datum_mismatch : ∃ p q : Piece,
    p.body = .ok (.list [.symbol "9999999999"]) ∧ q.body = .error ⟨.misplaced, 26⟩ ∧
      Pieces Grammar.AnySize 30 (Token.ofText "(9999999999) (x 8888888888] y)".toList) [p, q] ∧
      List.Forall₂ (Piece.ReportedBy "in" "(9999999999) (x 8888888888] y)".toList) [p, q]
        (readAll "in" "(9999999999) (x 8888888888] y)") := by
  have hnines : Grammar.AnySize "9999999999".toList (.symbol "9999999999") :=
    .oversized ⟨_, .bare (Grammar.allDigits_iff.1 (by decide)), .inr (by decide)⟩
  have heights : Grammar.AnySize "8888888888".toList (.symbol "8888888888") :=
    .oversized ⟨_, .bare (Grammar.allDigits_iff.1 (by decide)), .inr (by decide)⟩
  have hx : Grammar.AnySize "x".toList (.symbol "x") :=
    Grammar.anySize_iff.2 rfl
  have hwhole : Forms Grammar.AnySize 0
      [.opening .round, .atom "9999999999".toList, .closing .round]
      (.list [.symbol "9999999999"]) :=
    @Forms.list _ 0 .round [([.atom "9999999999".toList], .symbol "9999999999")] (by decide)
      (by simpa using .atom (by decide) hnines)
  have hbegun : Begun Grammar.AnySize
      [.opening .round, .atom "x".toList, .atom "8888888888".toList] [.opening .round] :=
    @Begun.list _ [] [] .round [([.atom "x".toList], .symbol "x"),
      ([.atom "8888888888".toList], .symbol "8888888888")] (by decide) .nil
      (by simpa using ⟨.atom (by decide) hx, .atom (by decide) heights⟩)
  have hpieces : Pieces Grammar.AnySize 30
      (Token.ofText "(9999999999) (x 8888888888] y)".toList) [_, _] :=
    @Pieces.datum _ 30 [⟨.opening .round, ⟨0, 1⟩⟩, ⟨.atom "9999999999".toList, ⟨1, 1⟩⟩,
        ⟨.closing .round, ⟨11, 1⟩⟩] _ _ _ _ _ hwhole rfl rfl
      (@Pieces.refused _ 30 [⟨.opening .round, ⟨13, 1⟩⟩, ⟨.atom "x".toList, ⟨14, 1⟩⟩,
          ⟨.atom "8888888888".toList, ⟨16, 1⟩⟩]
        [⟨.atom "y".toList, ⟨28, 1⟩⟩, ⟨.closing .round, ⟨29, 1⟩⟩] _ ⟨.closing .square, ⟨26, 1⟩⟩ _ _
        hbegun (.unmatched rfl (by decide)) rfl)
  exact ⟨_, _, rfl, rfl, hpieces, (oversized_numeral_costs_its_datum "in" _).2 _ hpieces⟩

end Primer
