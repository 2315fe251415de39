/-
Primer/Proofs/Symbols.lean

The names that symbols can have.

A name is readable if it is that of a symbol in some datum that is read from some text.
These are the names that are spelled as symbols (`readable_iff_isSymbol`): what is read
from a text fits, wherever in the text it stands and whatever else the text holds
(`Datum.fits_of_mem_readAll`).
-/
import Primer.Proofs.Forms
import Primer.Proofs.Spelling

namespace Primer

/-- A name that the reader can produce: that of a symbol somewhere in a datum that is read
from a text. -/
def Readable (name : String) : Prop :=
  ∃ source input, ∃ entry ∈ readAll source input, ∃ d, entry.result = .ok d ∧
    d.mentions name = true

namespace Datum

/-! ### What is read from a text among other things -/

/-- A piece that holds a datum is made of tokens of the text. -/
theorem forms_of_mem_pieces {A : List Char → Datum → Prop} {size : Nat} {ts : List Token}
    {pieces : List Piece} (h : Pieces A size ts pieces) {piece : Piece} (hpiece : piece ∈ pieces)
    {d : Datum} (hd : piece.body = .ok d) :
    Forms A 0 (piece.tokens.map Token.lexeme) d ∧ piece.tokens ⊆ ts := by
  induction h with
  | nil => cases hpiece
  | @datum ts rest _ _ _ _ hforms _ _ _ ih =>
    rcases List.mem_cons.1 hpiece with rfl | hpiece
    · cases hd
      exact ⟨hforms, List.subset_append_left ts rest⟩
    · obtain ⟨hforms, hsubset⟩ := ih hpiece
      exact ⟨hforms, List.Subset.trans hsubset (List.subset_append_right ts rest)⟩
  | unfinished =>
    obtain rfl := List.mem_singleton.1 hpiece
    cases hd
  | refused =>
    obtain rfl := List.mem_singleton.1 hpiece
    cases hd

/-- What is read from a text fits. -/
theorem fits_of_mem_readAll {source input : String} {entry : Entry}
    (hentry : entry ∈ readAll source input) {d : Datum} (hd : entry.result = .ok d) : Fits 0 d := by
  obtain ⟨item, hitem, rfl⟩ := List.mem_map.1 hentry
  obtain ⟨pieces, hpieces⟩ :=
    exists_pieces exists_readAs input.toList.length (Token.ofText input.toList)
  rw [hpieces.items_eq fun _ _ h => h] at hitem
  obtain ⟨piece, hpiece, rfl⟩ := List.mem_map.1 hitem
  have hresult : piece.item.result = .ok d := by
    cases hr : piece.item.result with
    | error fault => simp [hr, Except.mapError] at hd
    | ok d' => simpa [hr, Except.mapError] using hd
  obtain ⟨hover, hbody⟩ := Item.result_eq_ok_iff.1 hresult
  obtain ⟨hforms, hsubset⟩ := forms_of_mem_pieces hpieces hpiece hbody
  have hreads := hforms.reads (findSome?_oversized?_eq_none_iff.1 hover)
  refine fits_of_reads hreads fun cs hcs => ?_
  exact isAtom_of_mem_lexemes (List.map_subset Token.lexeme hsubset hcs)

/-- The symbols of a datum that fits are spelled as symbols. -/
theorem Fits.isSymbol {depth : Nat} {d : Datum} (h : Fits depth d) {name : String}
    (hname : d.mentions name = true) : IsSymbol name := by
  induction h with
  | number | bool => cases hname
  | symbol _ hsymbol =>
    obtain rfl := eq_of_beq hname
    exact hsymbol
  | list _ _ ih =>
    obtain ⟨d, hd, hname⟩ := mentionsAny_iff.1 hname
    exact ih d hd hname

end Datum

theorem readable_iff_isSymbol {name : String} : Readable name ↔ IsSymbol name := by
  constructor
  · rintro ⟨source, input, entry, hentry, d, hd, hname⟩
    exact (Datum.fits_of_mem_readAll hentry hd).isSymbol hname
  · intro h
    -- the name itself is a text of the symbol
    have hread : readOne name = .ok (.symbol name) :=
      (Written.symbol (Nat.zero_lt_succ _) h).readOne_eq
    obtain ⟨item, hitem, hresult⟩ := readOne_eq_ok_iff_items.1 hread
    have hmem : item ∈ Item.ofText name.toList := by
      rw [hitem]
      exact List.mem_singleton.2 rfl
    refine ⟨"", name, _, List.mem_map_of_mem hmem, .symbol name, ?_, beq_self_eq_true name⟩
    simp only [hresult, Except.mapError]

end Primer
