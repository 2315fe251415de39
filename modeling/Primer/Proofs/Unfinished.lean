/-
Primer/Proofs/Unfinished.lean

When a text ends within a datum.

A text that ends in a line feed ends between tokens, so what follows it has tokens of
its own.  Such a text needs more exactly if some text can follow it so that all is
read and one datum has a part on either side of the cut.

* Whatever a datum has left open can be closed (`Begun.exists_completion`), so a piece
  that is `Unfinished` becomes a datum (`Pieces.exists_completion`).
* Conversely, take any text that follows.  The pieces before the last one stay what
  they were, and a fault stays one.  So a datum across the cut can only be the last
  piece, and that is unfinished (`Pieces.exists_continuation`).

The datum across the cut has to have its numerals in range.  Once a numeral out of
range has been read, a text does not count as unfinished any more, although reading
would go on after its datum.
-/
import Primer.Proofs.Grammar
import Primer.Proofs.Offsets

namespace Primer

variable {A : List Char → Datum → Prop}

/-! ### Closing what is open -/

/-- Closing brackets end what is open around a datum. -/
theorem Begun.exists_closing {ls opened l : List Lexeme} {d : Datum} (h : Begun A ls opened)
    (hd : Forms A opened.length l d) :
    ∃ (shapes : List Bracket) (d' : Datum), Forms A 0 (ls ++ (l ++ shapes.map .closing)) d' := by
  induction h generalizing l d with
  | nil => exact ⟨[], d, by simpa using hd⟩
  | quote hdepth _ ih =>
    obtain ⟨shapes, d', hclosed⟩ := ih (.quote hdepth hd)
    exact ⟨shapes, d', by simpa using hclosed⟩
  | @list ls opened shape items hdepth _ hitems ih =>
    have hmore : ∀ p ∈ items ++ [(l, d)], Forms A (opened.length + 1) p.1 p.2 :=
      List.forall_mem_append.2 ⟨hitems, List.forall_mem_singleton.2 hd⟩
    have hlist : Forms A opened.length (.opening shape :: _) _ := .list hdepth hmore
    obtain ⟨shapes, d', hclosed⟩ := ih hlist
    exact ⟨shape :: shapes, d', by simpa using hclosed⟩

theorem lexemes_closing (shapes : List Bracket) :
    lexemes (shapes.map Bracket.closing) = shapes.map .closing := by
  induction shapes with
  | nil => rfl
  | cons shape shapes ih =>
    rw [List.map_cons, List.map_cons, Grammar.Begins.closing.lexemes_eq, ih]

theorem lexemes_atom_closing (shapes : List Bracket) :
    lexemes ('x' :: shapes.map Bracket.closing) = .atom ['x'] :: shapes.map .closing := by
  have hatom : IsAtom ['x'] := by decide
  have hends : Grammar.EndsAtom (shapes.map Bracket.closing) := by
    intro c hc
    obtain ⟨shape, -, rfl⟩ := List.mem_map.1 (List.mem_of_mem_head? hc)
    cases shape <;> rfl
  rw [← lexemes_closing, ← Grammar.lexemes_atom hatom hends]
  rfl

/-- Some text ends what is open.  Only after a quote mark does it need an atom. -/
theorem Begun.exists_completion (hA : ∃ d, A ['x'] d) {ls opened : List Lexeme}
    (h : Begun A ls opened) (hls : ls ≠ []) :
    ∃ (more : List Char) (d : Datum), Forms A 0 (ls ++ lexemes more) d ∧
      InRange (lexemes more) ∧ lexemes more ≠ [] := by
  have hclosing : ∀ shapes : List Bracket, InRange (shapes.map .closing) := by
    intro shapes text hmem
    obtain ⟨shape, -, heq⟩ := List.mem_map.1 hmem
    cases heq
  cases h with
  | nil => exact absurd rfl hls
  | @quote ls opened hdepth hbegun =>
    obtain ⟨x, hx⟩ := hA
    obtain ⟨shapes, d, hclosed⟩ := (hbegun.quote hdepth).exists_closing (.atom hdepth hx)
    refine ⟨'x' :: shapes.map Bracket.closing, d, ?_⟩
    rw [lexemes_atom_closing]
    refine ⟨hclosed, fun text hmem => ?_, List.cons_ne_nil _ _⟩
    rcases List.mem_cons.1 hmem with heq | hmem
    · cases heq
      decide
    · exact hclosing shapes text hmem
  | @list ls opened shape items hdepth hbegun hitems =>
    have hlist : Forms A opened.length (.opening shape :: _) _ := .list hdepth hitems
    obtain ⟨shapes, d, hclosed⟩ := hbegun.exists_closing hlist
    refine ⟨(shape :: shapes).map Bracket.closing, d, ?_⟩
    rw [lexemes_closing]
    exact ⟨by simpa using hclosed, hclosing (shape :: shapes), List.cons_ne_nil _ _⟩

/-! ### Pieces and what follows them -/

/-- A piece that lacks nothing but its end. -/
def Piece.Unfinished (piece : Piece) : Prop :=
  (∃ n, piece.body = .error ⟨.endOfText, n⟩) ∧ InRange (piece.tokens.map Token.lexeme)

/-- A piece that holds a datum, if numerals of any size are accepted. -/
def Piece.Whole (piece : Piece) : Prop := ∃ d, piece.body = .ok d

theorem Refuses.obstacle_ne {opened : List Lexeme} {t : Token} {f : Fault}
    (h : Refuses opened t f) : f.obstacle ≠ .endOfText := by
  cases h <;> simp

theorem Refuses.offset_le {opened : List Lexeme} {t : Token} {f : Fault}
    (h : Refuses opened t f) : f.offset ≤ t.stop := by
  cases h with
  | quote ht =>
    rw [Token.stop, ht]
    exact Nat.le_refl _
  | _ => exact Nat.le_add_right _ _

/-- A piece starts at one of the tokens. -/
theorem Pieces.exists_start {size : Nat} {ts : List Token} {pieces : List Piece}
    (h : Pieces A size ts pieces) {piece : Piece} (hpiece : piece ∈ pieces) :
    ∃ t ∈ ts, piece.start = t.position := by
  induction h with
  | nil => cases hpiece
  | datum _ hfirst _ _ ih =>
    rcases List.mem_cons.1 hpiece with rfl | hpiece
    · exact ⟨_, List.mem_append_left _ (List.mem_of_mem_head? hfirst), rfl⟩
    · obtain ⟨t, ht, hstart⟩ := ih hpiece
      exact ⟨t, List.mem_append_right _ ht, hstart⟩
  | unfinished _ hfirst =>
    obtain rfl := List.mem_singleton.1 hpiece
    exact ⟨_, List.mem_of_mem_head? hfirst, rfl⟩
  | @refused ts rest first t _ _ _ _ hfirst =>
    obtain rfl := List.mem_singleton.1 hpiece
    refine ⟨first, ?_, rfl⟩
    rw [List.append_cons]
    exact List.mem_append_left _ (List.mem_of_mem_head? hfirst)

/-- An unfinished piece can be completed. -/
theorem Pieces.exists_completion (hA : ∃ d, A ['x'] d) {size : Nat} {ts : List Token}
    {pieces : List Piece} (h : Pieces A size ts pieces)
    (hpieces : ∃ piece ∈ pieces, piece.Unfinished) :
    ∃ more : List Char, ∀ (later : List Token) (size' : Nat),
      later.map Token.lexeme = lexemes more → ∃ pieces', Pieces A size' (ts ++ later) pieces' ∧
        (∀ piece ∈ pieces', piece.Whole) ∧ ∃ piece ∈ pieces',
          InRange (piece.tokens.map Token.lexeme) ∧ (∃ t ∈ ts, piece.start = t.position) ∧
            ∃ t ∈ later, piece.stop = t.stop := by
  induction h with
  | nil =>
    obtain ⟨piece, hpiece, -⟩ := hpieces
    cases hpiece
  | datum hd hfirst hlast _ ih =>
    obtain ⟨piece, hpiece, hunfinished⟩ := hpieces
    rcases List.mem_cons.1 hpiece with rfl | hpiece
    · obtain ⟨⟨n, hbody⟩, -⟩ := hunfinished
      cases hbody
    · obtain ⟨more, hmore⟩ := ih ⟨piece, hpiece, hunfinished⟩
      refine ⟨more, fun later size' hlater => ?_⟩
      obtain ⟨pieces', hpieces', hwhole, piece', hpiece', hrange, ⟨t, ht, hstart⟩, hstop⟩ :=
        hmore later size' hlater
      rw [List.append_assoc]
      exact ⟨_, .datum hd hfirst hlast hpieces', List.forall_mem_cons.2 ⟨⟨_, rfl⟩, hwhole⟩, piece',
        List.mem_cons_of_mem _ hpiece', hrange, ⟨t, List.mem_append_right _ ht, hstart⟩, hstop⟩
  | @unfinished ts first opened hbegun hfirst =>
    obtain ⟨piece, hpiece, -, hrange⟩ := hpieces
    obtain rfl := List.mem_singleton.1 hpiece
    have hmem := List.mem_of_mem_head? hfirst
    obtain ⟨more, d, hd, hmore, hne⟩ := hbegun.exists_completion hA
      (List.ne_nil_of_mem (List.mem_map_of_mem hmem))
    refine ⟨more, fun later size' hlater => ?_⟩
    have hlexemes : (ts ++ later).map Token.lexeme = ts.map Token.lexeme ++ lexemes more := by
      rw [List.map_append, hlater]
    have hlaterne : later ≠ [] := by
      rintro rfl
      exact hne hlater.symm
    have hpieces' : Pieces A size' (ts ++ later ++ []) _ :=
      .datum (hlexemes ▸ hd) (by rw [List.head?_append, hfirst, Option.some_or])
        (by rw [List.getLast?_append_of_ne_nil _ hlaterne, List.getLast?_eq_some_getLast hlaterne])
        .nil
    rw [List.append_nil] at hpieces'
    refine ⟨_, hpieces', List.forall_mem_singleton.2 ⟨d, rfl⟩, _, List.mem_singleton_self _, ?_,
      ⟨first, hmem, rfl⟩, _, List.getLast_mem hlaterne, rfl⟩
    rw [hlexemes]
    exact fun text htext => (List.mem_append.1 htext).elim (hrange text) (hmore text)
  | refused _ hrefuses _ =>
    obtain ⟨piece, hpiece, ⟨n, hbody⟩, -⟩ := hpieces
    obtain rfl := List.mem_singleton.1 hpiece
    cases hbody
    exact absurd rfl hrefuses.obstacle_ne

/-- What follows completes an unfinished piece at most. -/
theorem Pieces.exists_continuation (hA : ∀ text, ∃ d, A text d) {size n : Nat} {ts : List Token}
    {pieces : List Piece} (h : Pieces A size ts pieces) (hts : ∀ t ∈ ts, t.stop ≤ n)
    {later : List Token} (hlater : ∀ t ∈ later, n ≤ t.offset) (size' : Nat) :
    ∃ pieces', Pieces A size' (ts ++ later) pieces' ∧ ((∀ piece ∈ pieces', piece.Whole) →
      ∀ piece ∈ pieces', InRange (piece.tokens.map Token.lexeme) → piece.start.offset < n →
        n < piece.stop → ∃ piece ∈ pieces, piece.Unfinished) := by
  -- a piece of tokens that follow starts after the cut
  have hafter : ∀ {ts' pieces'}, Pieces A size' ts' pieces' → ts' <:+ later →
      ∀ piece ∈ pieces', ¬ piece.start.offset < n := by
    intro ts' pieces' hpieces' hsuffix piece hpiece
    obtain ⟨t, ht, hstart⟩ := hpieces'.exists_start hpiece
    rw [hstart]
    exact Nat.not_lt.2 (hlater t (hsuffix.mem ht))
  induction h with
  | nil =>
    obtain ⟨pieces', hpieces'⟩ := exists_pieces hA size' later
    exact ⟨pieces', hpieces', fun _ piece hpiece _ hlow _ =>
      absurd hlow (hafter hpieces' List.suffix_rfl piece hpiece)⟩
  | @datum ts rest first last d pieces hd hfirst hlast _ ih =>
    obtain ⟨pieces', hpieces', hnext⟩ := ih fun t ht => hts t (List.mem_append_right _ ht)
    rw [List.append_assoc]
    refine ⟨_, .datum hd hfirst hlast hpieces', fun hwhole piece hpiece hrange hlow hhigh => ?_⟩
    rcases List.mem_cons.1 hpiece with rfl | hpiece
    · -- the datum ends before the cut
      have hstop := hts last (List.mem_append_left _ (List.mem_of_getLast? hlast))
      exact absurd hhigh (Nat.not_lt.2 hstop)
    · obtain ⟨piece', hpiece', hunfinished⟩ :=
        hnext (fun q hq => hwhole q (List.mem_cons_of_mem _ hq)) piece hpiece hrange hlow hhigh
      exact ⟨piece', List.mem_cons_of_mem _ hpiece', hunfinished⟩
  | @unfinished ts first opened hbegun hfirst =>
    obtain ⟨pieces', hpieces', hhead⟩ := hbegun.exists_pieces hA size' later
    refine ⟨pieces', hpieces', fun hwhole piece hpiece hrange hlow _ => ?_⟩
    obtain ⟨head, hhead, hprefix⟩ := hhead (List.ne_nil_of_mem (List.mem_of_mem_head? hfirst))
    generalize htokens : ts ++ later = all at hpieces'
    cases hpieces' with
    | nil => cases hhead
    | @datum ts' rest _ _ _ _ _ _ _ hrest =>
      cases hhead
      obtain ⟨more, rfl⟩ := hprefix
      rw [List.append_assoc, List.append_cancel_left_eq] at htokens
      rcases List.mem_cons.1 hpiece with rfl | hpiece
      · -- the piece across the cut has the tokens of the unfinished one
        refine ⟨_, List.mem_singleton_self _, ⟨size, rfl⟩, fun text htext => hrange text ?_⟩
        rw [List.map_append]
        exact List.mem_append_left _ htext
      · exact absurd hlow (hafter hrest (htokens ▸ List.suffix_append _ _) piece hpiece)
    | unfinished =>
      obtain ⟨d, hd⟩ := hwhole _ (List.mem_singleton_self _)
      cases hd
    | refused =>
      obtain ⟨d, hd⟩ := hwhole _ (List.mem_singleton_self _)
      cases hd
  | refused hbegun hrefuses hfirst =>
    rw [List.append_assoc, List.cons_append]
    refine ⟨_, .refused hbegun hrefuses hfirst, fun hwhole => ?_⟩
    obtain ⟨d, hd⟩ := hwhole _ (List.mem_singleton_self _)
    cases hd

/-! ### Reports -/

/-- The report of a fault says that the text is too short only if the text has ended. -/
theorem kind_report_eq_incomplete_iff {f : Fault} {text : List Char}
    (hf : f.obstacle = .endOfText ∨ (∃ numeral, f.obstacle = .oversized numeral) ∨
      f.offset < text.length) :
    (f.report text).kind = .incomplete ↔ f.obstacle = .endOfText := by
  refine ⟨fun hkind => ?_, kind_report_endOfText f text⟩
  obtain ⟨obstacle, offset⟩ := f
  rcases hf with hf | ⟨numeral, rfl⟩ | hf
  · exact hf
  · cases hkind
  · -- some character offends
    obtain ⟨c, rest, hdrop⟩ : ∃ c rest, text.drop offset = c :: rest :=
      List.exists_cons_of_ne_nil (by simpa using hf)
    cases obstacle with
    | endOfText => rfl
    | oversized numeral => cases hkind
    | tooDeep => simp [Fault.report, hdrop, SyntaxError.inContext] at hkind
    | misplaced => simp [Fault.report, hdrop, SyntaxError.inContext] at hkind

theorem exists_oversized_of_findSome? {ts : List Token} {f : Fault}
    (h : ts.findSome? Token.oversized? = some f) : ∃ numeral, f.obstacle = .oversized numeral := by
  obtain ⟨t, -, ht⟩ := List.exists_of_findSome?_eq_some h
  unfold Token.oversized? at ht
  split at ht
  · next text _ =>
    obtain ⟨-, heq⟩ := Option.ite_none_right_eq_some.1 ht
    cases heq
    exact ⟨text, rfl⟩
  · cases ht

theorem Piece.oversized_or_body {piece : Piece} {f : Fault} (h : piece.item.result = .error f) :
    (∃ numeral, f.obstacle = .oversized numeral) ∨ piece.body = .error f := by
  cases hover : piece.tokens.findSome? Token.oversized? with
  | none =>
    simp only [Piece.item, Item.result, hover] at h
    exact .inr h
  | some f' =>
    simp only [Piece.item, Item.result, hover] at h
    cases h
    exact .inl (exists_oversized_of_findSome? hover)

theorem Piece.unfinished_iff {piece : Piece} :
    piece.Unfinished ↔ ∃ f, piece.item.result = .error f ∧ f.obstacle = .endOfText := by
  rw [Unfinished, ← findSome?_oversized?_eq_none_iff]
  cases hover : piece.tokens.findSome? Token.oversized? with
  | none =>
    simp only [Piece.item, Item.result, hover, and_true]
    constructor
    · rintro ⟨n, hbody⟩
      exact ⟨_, hbody, rfl⟩
    · rintro ⟨⟨obstacle, n⟩, hbody, rfl⟩
      exact ⟨n, hbody⟩
  | some f =>
    obtain ⟨numeral, hnumeral⟩ := exists_oversized_of_findSome? hover
    simp [Piece.item, Item.result, hover, hnumeral]

/-- A fault that ends the reading stands at a token, or it is the end of the text. -/
theorem Pieces.fault_inside {size n : Nat} {ts : List Token} {pieces : List Piece}
    (h : Pieces A size ts pieces) (hts : ∀ t ∈ ts, t.stop < n) {piece : Piece}
    (hpiece : piece ∈ pieces) {f : Fault} (hbody : piece.body = .error f) :
    f.obstacle = .endOfText ∨ f.offset < n := by
  induction h with
  | nil => cases hpiece
  | datum _ _ _ _ ih =>
    rcases List.mem_cons.1 hpiece with rfl | hpiece
    · cases hbody
    · exact ih (fun t ht => hts t (List.mem_append_right _ ht)) hpiece
  | unfinished =>
    obtain rfl := List.mem_singleton.1 hpiece
    cases hbody
    exact .inl rfl
  | @refused ts rest first t _ _ _ hrefuses _ =>
    obtain rfl := List.mem_singleton.1 hpiece
    cases hbody
    exact .inr (Nat.lt_of_le_of_lt hrefuses.offset_le (hts t (by simp)))

/-- A text needs more if one of its pieces is unfinished. -/
theorem needsMore_iff_unfinished {input : String} {pieces : List Piece}
    (h : Pieces ReadAs input.toList.length (Token.ofText input.toList) pieces)
    (hts : ∀ t ∈ Token.ofText input.toList, t.stop < input.toList.length) :
    needsMore input = true ↔ ∃ piece ∈ pieces, piece.Unfinished := by
  rw [needsMore, readAll, h.items_eq fun _ _ hd => hd, List.any_map, List.any_map, List.any_eq_true]
  refine exists_congr fun piece => and_congr_right fun hpiece => ?_
  rw [piece.unfinished_iff]
  obtain ⟨first, hfirst, hstart⟩ := h.exists_start hpiece
  have hlt : piece.start.offset < input.toList.length := by
    rw [hstart]
    exact Nat.lt_of_le_of_lt (Nat.le_add_right _ _) (hts first hfirst)
  simp only [Function.comp]
  cases hresult : piece.item.result with
  | ok d => simp [Except.mapError]
  | error f =>
    have hf : f.obstacle = .endOfText ∨ (∃ numeral, f.obstacle = .oversized numeral) ∨
        f.offset - piece.start.offset < (input.toList.drop piece.start.offset).length := by
      rw [List.length_drop]
      rcases piece.oversized_or_body hresult with hnumeral | hbody
      · exact .inr (.inl hnumeral)
      · rcases h.fault_inside hts hpiece hbody with hend | hinside
        · exact .inl hend
        · exact .inr (.inr (by omega))
    have hkind := kind_report_eq_incomplete_iff (f := f.since piece.start.offset) hf
    simp only [Except.mapError, SyntaxError.locate, beq_iff_eq]
    refine hkind.trans ?_
    simp [Fault.since]

/-! ### Texts that end in a line feed -/

/-- All of the text `p` followed by `q` is read, but for numerals out of range, and a
datum starts in `p` and ends in `q`. -/
def Completes (p q : String) : Prop :=
  (∀ i ∈ Item.ofText (p ++ q).toList, ∃ d, i.body = .ok d) ∧
    ∃ i ∈ Item.ofText (p ++ q).toList, (∃ d, i.result = .ok d) ∧
      i.start.offset < p.length ∧ p.length < i.stop

section

variable {p : String} {pieces : List Piece}

theorem exists_completes (hp : p.toList.getLast? = some '\n')
    (h : Pieces ReadAs p.toList.length (Token.ofText p.toList) pieces)
    (hunfinished : ∃ piece ∈ pieces, piece.Unfinished) : ∃ q, Completes p q := by
  obtain ⟨more, hmore⟩ := h.exists_completion (exists_readAs _) hunfinished
  obtain ⟨later, htokens, hlexemes, hlater⟩ := exists_ofText_append (mode_of_getLast? hp) more
  obtain ⟨pieces', hpieces', hwhole, piece, hpiece, hrange, ⟨t, ht, hstart⟩, t', ht', hstop⟩ :=
    hmore later (p.toList ++ more).length hlexemes
  rw [← htokens] at hpieces'
  refine ⟨String.ofList more, ?_⟩
  rw [Completes, String.toList_append, String.toList_ofList, ← String.length_toList,
    hpieces'.items_eq fun _ _ hd => hd]
  refine ⟨?_, piece.item, List.mem_map_of_mem hpiece, ?_, ?_, ?_⟩
  · intro i hi
    obtain ⟨piece', hpiece', rfl⟩ := List.mem_map.1 hi
    exact hwhole piece' hpiece'
  · obtain ⟨d, hd⟩ := hwhole piece hpiece
    exact ⟨d, Item.result_eq_ok_iff.2 ⟨findSome?_oversized?_eq_none_iff.2 hrange, hd⟩⟩
  · -- it starts at a token of the first part
    show piece.start.offset < p.toList.length
    rw [hstart]
    exact Nat.lt_of_le_of_lt (Nat.le_add_right _ _) (stop_lt_of_mem hp ht)
  · -- and ends at one of the second
    have hsize : 0 < t'.lexeme.size :=
      size_pos_of_mem_lexemes (hlexemes ▸ List.mem_map_of_mem ht')
    have hoffset := hlater t' ht'
    show p.toList.length < piece.stop
    rw [hstop, Token.stop]
    omega

theorem unfinished_of_completes (hp : p.toList.getLast? = some '\n')
    (h : Pieces ReadAs p.toList.length (Token.ofText p.toList) pieces) {q : String}
    (hq : Completes p q) : ∃ piece ∈ pieces, piece.Unfinished := by
  obtain ⟨later, htokens, -, hlater⟩ := exists_ofText_append (mode_of_getLast? hp) q.toList
  obtain ⟨pieces', hpieces', hunfinished⟩ := h.exists_continuation exists_readAs
    (fun t ht => Nat.le_of_lt (stop_lt_of_mem hp ht)) hlater (p ++ q).toList.length
  rw [← htokens, ← String.toList_append] at hpieces'
  rw [Completes, hpieces'.items_eq fun _ _ hd => hd] at hq
  obtain ⟨hall, i, hi, ⟨d, hd⟩, hlow, hhigh⟩ := hq
  obtain ⟨piece, hpiece, rfl⟩ := List.mem_map.1 hi
  rw [← String.length_toList] at hlow hhigh
  exact hunfinished (fun piece' hpiece' => hall _ (List.mem_map_of_mem hpiece')) piece hpiece
    (findSome?_oversized?_eq_none_iff.1 (Item.result_eq_ok_iff.1 hd).1) hlow hhigh

end

/-- A text that ends in a line feed needs more exactly if some text completes it. -/
theorem needsMore_iff_exists_completion (p : String) (hp : p.toList.getLast? = some '\n') :
    needsMore p = true ↔ ∃ q, Completes p q := by
  obtain ⟨pieces, hpieces⟩ := exists_pieces exists_readAs p.toList.length (Token.ofText p.toList)
  rw [needsMore_iff_unfinished hpieces fun t => stop_lt_of_mem hp]
  constructor
  · exact exists_completes hp hpieces
  · rintro ⟨q, hq⟩
    exact unfinished_of_completes hp hpieces hq

/-- An open list, a comment with a bracket in it and a quote mark. -/
theorem needsMore_iff_exists_completion_quote : needsMore "1 (x ; )\n '\n" = true ∧
    ∃ q, Completes "1 (x ; )\n '\n" q := by
  have hmore : needsMore "1 (x ; )\n '\n" = true := by decide +kernel
  exact ⟨hmore, (needsMore_iff_exists_completion _ rfl).1 hmore⟩

/-- A list that holds a numeral out of range and is not closed.  With a bracket after it
there is nothing wrong but the numeral, and the item is one from before the cut to after
it, yet the text does not count as unfinished. -/
theorem needsMore_of_oversized : needsMore "(99999999999\n" = false ∧
    (∀ i ∈ Item.ofText ("(99999999999\n" ++ ")").toList, ∃ d, i.body = .ok d) ∧
      ∃ i ∈ Item.ofText ("(99999999999\n" ++ ")").toList,
        i.start.offset < "(99999999999\n".length ∧ "(99999999999\n".length < i.stop := by
  have hitems : Item.ofText ("(99999999999\n" ++ ")").toList
      = [⟨⟨0, 1⟩, 14, some ⟨.oversized "99999999999".toList, 1⟩,
          .ok (.list [.symbol "99999999999"])⟩] := by rfl
  refine ⟨by decide +kernel, ?_, ?_⟩
  · rw [hitems]
    exact List.forall_mem_singleton.2 ⟨_, rfl⟩
  · rw [hitems]
    exact ⟨_, List.mem_singleton_self _, by decide, by decide⟩

end Primer
