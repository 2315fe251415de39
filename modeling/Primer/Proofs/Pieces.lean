/-
Primer/Proofs/Pieces.lean

How a text falls into data.

`Forms A depth ls d` is the grammar of data: some lexemes make up the datum `d`
where `depth` lists and quote marks are open around them.  What atoms denote is left
open, so the grammar with numerals of any size and the one with numerals in range
differ in `A` only.

`Pieces` cuts the tokens of a text into data, one after the other.  The last piece
may have a fault: the text ends where a datum has `Begun`, or what is open there
`Refuses` the next token.

* Every text falls into pieces (`Begun.exists_pieces`): the lexemes of a datum that
  has begun make a whole datum with the next one, or one that has still only begun,
  or the next one is refused (`Begun.extend`).
* The reader finds exactly these pieces (`Pieces.items_eq`).  In each the datum or
  fault is the one of the grammar with numerals of any size, and beside it the item
  remembers the first numeral out of range.
-/
import Mathlib.Data.List.Basic
import Primer.Reader

namespace Primer

/-! ### The grammar -/

/-- Lexemes that make up a datum, under `depth` lists and quote marks, if atoms
denote what `A` says. -/
inductive Forms (A : List Char → Datum → Prop) : Nat → List Lexeme → Datum → Prop
  | atom {depth : Nat} {text : List Char} {d : Datum} : depth < maxNesting → A text d →
      Forms A depth [.atom text] d
  | quote {depth : Nat} {ls : List Lexeme} {d : Datum} : depth + 1 < maxNesting →
      Forms A (depth + 1) ls d → Forms A depth (.quote :: ls) d.quoted
  | list {depth : Nat} {shape : Bracket} {items : List (List Lexeme × Datum)} :
      depth < maxNesting → (∀ p ∈ items, Forms A (depth + 1) p.1 p.2) →
        Forms A depth (.opening shape :: ((items.map (·.1)).flatten ++ [.closing shape]))
          (.list (items.map (·.2)))

/-- Lexemes since the start of a datum that is not finished, and the opening brackets
and quote marks that they leave open, innermost first. -/
inductive Begun (A : List Char → Datum → Prop) : List Lexeme → List Lexeme → Prop
  | nil : Begun A [] []
  | quote {ls opened : List Lexeme} : opened.length + 1 < maxNesting → Begun A ls opened →
      Begun A (ls ++ [.quote]) (.quote :: opened)
  | list {ls opened : List Lexeme} {shape : Bracket} {items : List (List Lexeme × Datum)} :
      opened.length < maxNesting → Begun A ls opened →
        (∀ p ∈ items, Forms A (opened.length + 1) p.1 p.2) →
          Begun A (ls ++ .opening shape :: (items.map (·.1)).flatten) (.opening shape :: opened)

/-- A token that has no place under what is open, and the fault that it is. -/
inductive Refuses (opened : List Lexeme) (t : Token) : Fault → Prop
  | unmatched {shape : Bracket} : t.lexeme = .closing shape →
      opened.head? ≠ some (.opening shape) → Refuses opened t ⟨.misplaced, t.offset⟩
  | stray {c : Char} : t.lexeme = .stray c → opened.length < maxNesting →
      Refuses opened t ⟨.misplaced, t.offset⟩
  | deep : (∀ shape, t.lexeme ≠ .closing shape) → maxNesting ≤ opened.length →
      Refuses opened t ⟨.tooDeep, t.offset⟩
  /-- what the mark would quote is too deep -/
  | quote : t.lexeme = .quote → opened.length + 1 = maxNesting →
      Refuses opened t ⟨.tooDeep, t.offset + 1⟩

/-- A part of a text that holds a datum, or the fault that ends the reading. -/
structure Piece where
  start : Position
  /-- the number of characters up to its end -/
  stop : Nat
  /-- the tokens that were taken: all of a datum, or those before a fault -/
  tokens : List Token
  body : Except Fault Datum

/-- The pieces of some tokens, the last of a text of `size` characters. -/
inductive Pieces (A : List Char → Datum → Prop) (size : Nat) : List Token → List Piece → Prop
  | nil : Pieces A size [] []
  | datum {ts rest : List Token} {first last : Token} {d : Datum} {pieces : List Piece} :
      Forms A 0 (ts.map Token.lexeme) d → ts.head? = some first → ts.getLast? = some last →
        Pieces A size rest pieces →
          Pieces A size (ts ++ rest) (⟨first.position, last.stop, ts, .ok d⟩ :: pieces)
  | unfinished {ts : List Token} {first : Token} {opened : List Lexeme} :
      Begun A (ts.map Token.lexeme) opened → ts.head? = some first →
        Pieces A size ts [⟨first.position, size, ts, .error ⟨.endOfText, size⟩⟩]
  | refused {ts rest : List Token} {first t : Token} {opened : List Lexeme} {fault : Fault} :
      Begun A (ts.map Token.lexeme) opened → Refuses opened t fault →
        (ts ++ [t]).head? = some first →
          Pieces A size (ts ++ t :: rest) [⟨first.position, t.stop, ts, .error fault⟩]

variable {A : List Char → Datum → Prop}

theorem Forms.ne_nil {depth : Nat} {ls : List Lexeme} {d : Datum} (h : Forms A depth ls d) :
    ls ≠ [] := by
  cases h <;> exact List.cons_ne_nil _ _

/-! ### Every text falls into pieces -/

/-- Some lexemes make up a datum, or the start of one. -/
def GoesOn (A : List Char → Datum → Prop) (ls : List Lexeme) : Prop :=
  (∃ opened, Begun A ls opened) ∨ ∃ d, Forms A 0 ls d

/-- A datum in the place where the next one is due. -/
theorem Begun.settle {ls opened l : List Lexeme} {d : Datum} (h : Begun A ls opened)
    (hd : Forms A opened.length l d) : GoesOn A (ls ++ l) := by
  induction h generalizing l d with
  | nil => exact .inr ⟨d, hd⟩
  | @quote ls opened hdepth _ ih =>
    rw [List.append_assoc]
    exact ih (.quote hdepth hd)
  | @list ls opened shape items hdepth hopened hitems _ =>
    have hmore : ∀ p ∈ items ++ [(l, d)], Forms A (opened.length + 1) p.1 p.2 :=
      List.forall_mem_append.2 ⟨hitems, List.forall_mem_singleton.2 hd⟩
    have hlist : Begun A _ (.opening shape :: opened) := .list hdepth hopened hmore
    exact .inl ⟨_, by simpa using hlist⟩

/-- One more token. -/
theorem Begun.extend (hA : ∀ text, ∃ d, A text d) {ls opened : List Lexeme}
    (h : Begun A ls opened) (t : Token) :
    (∃ fault, Refuses opened t fault) ∨ GoesOn A (ls ++ [t.lexeme]) := by
  by_cases hclosing : ∃ shape, t.lexeme = .closing shape
  · obtain ⟨shape, ht⟩ := hclosing
    by_cases htop : opened.head? = some (.opening shape)
    · -- the innermost list is whole
      refine .inr ?_
      rw [ht]
      cases h with
      | nil => cases htop
      | quote => cases htop
      | @list ls opened shape' items hdepth hopened hitems =>
        obtain rfl : shape' = shape := by simpa using htop
        have hlist : Forms A opened.length (.opening shape' :: _) _ := .list hdepth hitems
        simpa using hopened.settle hlist
    · exact .inl ⟨_, .unmatched ht htop⟩
  · have hother : ∀ shape, t.lexeme ≠ .closing shape := fun shape ht => hclosing ⟨shape, ht⟩
    by_cases hdepth : opened.length < maxNesting
    · cases ht : t.lexeme with
      | closing shape => exact absurd ht (hother shape)
      | opening shape =>
        have hlist : ∀ p ∈ ([] : List (List Lexeme × Datum)),
            Forms A (opened.length + 1) p.1 p.2 := List.forall_mem_nil _
        exact .inr (.inl ⟨_, .list hdepth h hlist⟩)
      | quote =>
        by_cases hquote : opened.length + 1 < maxNesting
        · exact .inr (.inl ⟨_, .quote hquote h⟩)
        · exact .inl ⟨_, .quote ht (Nat.le_antisymm hdepth (Nat.le_of_not_lt hquote))⟩
      | atom text =>
        obtain ⟨d, hd⟩ := hA text
        exact .inr (h.settle (.atom hdepth hd))
      | stray c => exact .inl ⟨_, .stray ht hdepth⟩
    · exact .inl ⟨_, .deep hother (Nat.le_of_not_lt hdepth)⟩

/-- Tokens fall into pieces, and those of a datum that has begun stay in one. -/
theorem Begun.exists_pieces (hA : ∀ text, ∃ d, A text d) (size : Nat)
    {before : List Token} {opened : List Lexeme}
    (h : Begun A (before.map Token.lexeme) opened) (ts : List Token) :
    ∃ pieces, Pieces A size (before ++ ts) pieces ∧
      (before ≠ [] → ∃ piece ∈ pieces.head?, before <+: piece.tokens) := by
  induction ts generalizing before opened with
  | nil =>
    rw [List.append_nil]
    cases before with
    | nil => exact ⟨[], .nil, fun hne => absurd rfl hne⟩
    | cons first more => exact ⟨_, .unfinished h rfl, fun _ => ⟨_, rfl, List.prefix_rfl⟩⟩
  | cons t ts ih =>
    obtain ⟨first, hfirst⟩ : ∃ first, (before ++ [t]).head? = some first := by
      cases before <;> exact ⟨_, rfl⟩
    have hlexemes : (before ++ [t]).map Token.lexeme = before.map Token.lexeme ++ [t.lexeme] := by
      simp
    rcases h.extend hA t with ⟨fault, hrefuses⟩ | ⟨opened', hbegun⟩ | ⟨d, hd⟩
    · exact ⟨_, .refused h hrefuses hfirst, fun _ => ⟨_, rfl, List.prefix_rfl⟩⟩
    · obtain ⟨pieces, hpieces, hhead⟩ := ih (hlexemes ▸ hbegun)
      obtain ⟨piece, hpiece, hprefix⟩ := hhead (by simp)
      rw [List.append_assoc] at hpieces
      exact ⟨pieces, hpieces, fun _ => ⟨piece, hpiece, (List.prefix_append _ _).trans hprefix⟩⟩
    · obtain ⟨pieces, hpieces, -⟩ := @ih [] [] .nil
      have hwhole := Pieces.datum (hlexemes ▸ hd) hfirst (List.getLast?_concat) hpieces
      rw [List.append_assoc] at hwhole
      exact ⟨_, hwhole, fun _ => ⟨_, rfl, List.prefix_append _ _⟩⟩

theorem exists_pieces (hA : ∀ text, ∃ d, A text d) (size : Nat) (ts : List Token) :
    ∃ pieces, Pieces A size ts pieces := by
  obtain ⟨pieces, hpieces, -⟩ := @Begun.exists_pieces A hA size [] [] .nil ts
  exact ⟨pieces, hpieces⟩

/-! ### The reader finds the pieces -/

/-- The item that is read from a piece. -/
def Piece.item (piece : Piece) : Item :=
  ⟨piece.start, piece.stop, piece.tokens.findSome? Token.oversized?, piece.body⟩

/-- The reading after a token of a datum that started at `p`. -/
def deliver (items : List Item) (p : Position) (stop : Nat) (oversized : Option Fault) :
    Settled → Reading
  | .whole d => ⟨⟨p, stop, oversized, .ok d⟩ :: items, .between⟩
  | .inside stack => ⟨items, .within p stack oversized⟩

/-- A token that can be taken. -/
theorem step_of_accept {t : Token} {stack : List Pending} {settled : Settled}
    (hacc : Pending.accept t stack = .ok settled) (items : List Item) (p : Position)
    (oversized : Option Fault) :
    Reading.step ⟨items, .within p stack oversized⟩ t
      = deliver items p t.stop (oversized.or t.oversized?) settled := by
  simp only [Reading.step, Reading.take, hacc]
  cases settled <;> rfl

/-- A bracket opens a list. -/
theorem step_opening {t : Token} {shape : Bracket} {stack : List Pending}
    (ht : t.lexeme = .opening shape) (hdepth : stack.length < maxNesting) (items : List Item)
    (p : Position) (oversized : Option Fault) :
    Reading.step ⟨items, .within p stack oversized⟩ t
      = ⟨items, .within p (.list shape [] :: stack) oversized⟩ := by
  have hacc : Pending.accept t stack = .ok (.inside (.list shape [] :: stack)) := by
    rw [Pending.accept, ht]
    simp only [Pending.begin, ht, Nat.not_le.2 hdepth, if_false]
  have hover : t.oversized? = none := by simp [Token.oversized?, ht]
  rw [step_of_accept hacc, hover, Option.or_none, deliver]

/-- A quote mark waits for a datum one level deeper. -/
theorem step_quote {t : Token} {stack : List Pending} (ht : t.lexeme = .quote)
    (hdepth : stack.length + 1 < maxNesting) (items : List Item) (p : Position)
    (oversized : Option Fault) :
    Reading.step ⟨items, .within p stack oversized⟩ t
      = ⟨items, .within p (.quote :: stack) oversized⟩ := by
  have hacc : Pending.accept t stack = .ok (.inside (.quote :: stack)) := by
    rw [Pending.accept, ht]
    simp only [Pending.begin, ht, Nat.not_le.2 hdepth, Nat.not_le.2 (Nat.lt_of_succ_lt hdepth),
      if_false]
  have hover : t.oversized? = none := by simp [Token.oversized?, ht]
  rw [step_of_accept hacc, hover, Option.or_none, deliver]

/-- Only atoms can be out of range. -/
theorem findSome?_oversized?_cons {t : Token} (ht : ∀ text, t.lexeme ≠ .atom text)
    (ts : List Token) :
    (t :: ts).findSome? Token.oversized? = ts.findSome? Token.oversized? := by
  have hover : t.oversized? = none := by
    cases hl : t.lexeme with
    | atom text => exact absurd hl (ht text)
    | _ => rw [Token.oversized?, hl]
  rw [List.findSome?_cons, hover]

/-- The tokens with these lexemes lead to where the datum belongs. -/
def Arrives (depth : Nat) (ls : List Lexeme) (d : Datum) : Prop :=
  ∀ (ts : List Token) (last : Token) (items : List Item) (p : Position) (stack : List Pending)
    (oversized : Option Fault), ts.map Token.lexeme = ls → ts.getLast? = some last →
      stack.length = depth → ts.foldl Reading.step ⟨items, .within p stack oversized⟩
        = deliver items p last.stop (oversized.or (ts.findSome? Token.oversized?))
            (Pending.settle d stack)

/-- The items of a list go into it one after the other. -/
theorem arrives_items {depth : Nat} {shape : Bracket} {parts : List (List Lexeme × Datum)}
    (hne : ∀ q ∈ parts, q.1 ≠ []) (h : ∀ q ∈ parts, Arrives (depth + 1) q.1 q.2)
    (ts : List Token) (hts : ts.map Token.lexeme = (parts.map (·.1)).flatten)
    (items : List Item) (p : Position) {stack : List Pending} (hstack : stack.length = depth)
    (reversed : List Datum) (oversized : Option Fault) :
    ts.foldl Reading.step ⟨items, .within p (.list shape reversed :: stack) oversized⟩
      = ⟨items, .within p (.list shape ((parts.map (·.2)).reverse ++ reversed) :: stack)
          (oversized.or (ts.findSome? Token.oversized?))⟩ := by
  induction parts generalizing ts reversed oversized with
  | nil =>
    obtain rfl : ts = [] := by simpa using hts
    simp
  | cons q qs ih =>
    -- the tokens of the first item, then those of the others
    rw [List.map_cons, List.flatten_cons] at hts
    obtain ⟨ts₁, ts₂, rfl, h₁, h₂⟩ := List.map_eq_append_iff.1 hts
    have hts₁ : ts₁ ≠ [] := by
      rintro rfl
      exact hne q List.mem_cons_self h₁.symm
    have hfirst := h q List.mem_cons_self ts₁ _ items p (.list shape reversed :: stack) oversized h₁
      (List.getLast?_eq_some_getLast hts₁) (by rw [List.length_cons, hstack])
    rw [List.foldl_append, hfirst, Pending.settle, deliver,
      ih (fun r hr => hne r (List.mem_cons_of_mem q hr))
        (fun r hr => h r (List.mem_cons_of_mem q hr)) ts₂ h₂,
      List.findSome?_append, Option.or_assoc]
    simp

theorem Forms.arrives (hA : ∀ text d, A text d → Datum.ofAtom text = d) {depth : Nat}
    {ls : List Lexeme} {d : Datum} (h : Forms A depth ls d) : Arrives depth ls d := by
  induction h with
  | @atom depth text d hdepth hd =>
    intro ts last items p stack oversized hts hlast hstack
    obtain ⟨t, rfl, ht⟩ : ∃ t, ts = [t] ∧ t.lexeme = .atom text := by
      simpa [List.map_eq_singleton_iff] using hts
    obtain rfl : t = last := by simpa using hlast
    have hacc : Pending.accept t stack = .ok (Pending.settle d stack) := by
      rw [Pending.accept, ht, ← hA text d hd]
      simp only [Pending.begin, ht, hstack, Nat.not_le.2 hdepth, if_false]
    rw [List.foldl_cons, List.foldl_nil, step_of_accept hacc, List.findSome?_singleton]
  | @quote depth ls d hdepth hls ih =>
    intro ts last items p stack oversized hts hlast hstack
    subst hstack
    obtain ⟨t, ts, rfl, ht, hts⟩ := List.map_eq_cons_iff.1 hts
    have hlast' : ts.getLast? = some last := by
      cases ts with
      | nil => exact absurd hts.symm hls.ne_nil
      | cons t' ts => simpa using hlast
    -- settling a datum under a quote mark is settling its quotation
    have hrest := ih ts last items p (.quote :: stack) oversized hts hlast' rfl
    rw [Pending.settle] at hrest
    rw [List.foldl_cons, step_quote ht hdepth, hrest, findSome?_oversized?_cons (by simp [ht])]
  | @list depth shape parts hdepth hparts ih =>
    intro ts last items p stack oversized hts hlast hstack
    subst hstack
    obtain ⟨t, ts, rfl, ht, hts⟩ := List.map_eq_cons_iff.1 hts
    obtain ⟨middle, final, rfl, hmiddle, hfinal⟩ := List.map_eq_append_iff.1 hts
    obtain ⟨t', rfl, ht'⟩ : ∃ t', final = [t'] ∧ t'.lexeme = .closing shape := by
      simpa [List.map_eq_singleton_iff] using hfinal
    obtain rfl : t' = last := by
      rw [← List.cons_append, List.getLast?_concat] at hlast
      exact Option.some.inj hlast
    have hclose : Pending.accept t' (.list shape (parts.map (·.2)).reverse :: stack)
        = .ok (Pending.settle (.list (parts.map (·.2))) stack) := by
      rw [Pending.accept, ht']
      simp only [Pending.close, if_true, List.reverse_reverse]
    have hover : t'.oversized? = none := by simp [Token.oversized?, ht']
    -- the opening bracket, the items, the closing bracket
    rw [List.foldl_cons, step_opening ht hdepth, List.foldl_append,
      arrives_items (fun q hq => (hparts q hq).ne_nil) ih middle hmiddle items p rfl [],
      List.append_nil, List.foldl_cons, List.foldl_nil, step_of_accept hclose, hover,
      Option.or_none, findSome?_oversized?_cons (by simp [ht]), List.findSome?_append,
      List.findSome?_singleton, hover, Option.or_none]

/-- What opened a list or a quotation. -/
def Pending.lexeme : Pending → Lexeme
  | list shape _ => .opening shape
  | quote => .quote

/-- The tokens of a datum that has begun leave open what its lexemes do. -/
theorem Begun.arrives (hA : ∀ text d, A text d → Datum.ofAtom text = d)
    {ls opened : List Lexeme} (h : Begun A ls opened) {ts : List Token}
    (hts : ts.map Token.lexeme = ls) (items : List Item) (p : Position) :
    ∃ stack, stack.map Pending.lexeme = opened ∧
      ts.foldl Reading.step ⟨items, .within p [] none⟩
        = ⟨items, .within p stack (ts.findSome? Token.oversized?)⟩ := by
  induction h generalizing ts with
  | nil =>
    obtain rfl : ts = [] := by simpa using hts
    exact ⟨[], rfl, rfl⟩
  | @quote ls opened hdepth _ ih =>
    obtain ⟨before, final, rfl, hbefore, hfinal⟩ := List.map_eq_append_iff.1 hts
    obtain ⟨t, rfl, ht⟩ : ∃ t, final = [t] ∧ t.lexeme = .quote := by
      simpa [List.map_eq_singleton_iff] using hfinal
    obtain ⟨stack, rfl, hstack⟩ := ih hbefore
    rw [List.length_map] at hdepth
    refine ⟨.quote :: stack, rfl, ?_⟩
    rw [List.foldl_append, hstack, List.foldl_cons, List.foldl_nil, step_quote ht hdepth,
      List.findSome?_append, findSome?_oversized?_cons (by simp [ht]), List.findSome?_nil,
      Option.or_none]
  | @list ls opened shape parts hdepth _ hparts ih =>
    obtain ⟨before, more, rfl, hbefore, hmore⟩ := List.map_eq_append_iff.1 hts
    obtain ⟨t, inner, rfl, ht, hinner⟩ := List.map_eq_cons_iff.1 hmore
    obtain ⟨stack, rfl, hstack⟩ := ih hbefore
    rw [List.length_map] at hdepth hparts
    refine ⟨.list shape (parts.map (·.2)).reverse :: stack, rfl, ?_⟩
    rw [List.foldl_append, hstack, List.foldl_cons, step_opening ht hdepth,
      arrives_items (fun q hq => (hparts q hq).ne_nil)
        (fun q hq => (hparts q hq).arrives hA) inner hinner items p rfl [], List.append_nil,
      List.findSome?_append, findSome?_oversized?_cons (by simp [ht])]

/-- What is refused is not taken. -/
theorem Refuses.accept_eq {stack : List Pending} {t : Token} {fault : Fault}
    (h : Refuses (stack.map Pending.lexeme) t fault) : Pending.accept t stack = .error fault := by
  cases h with
  | @unmatched shape ht htop =>
    rw [Pending.accept, ht]
    cases stack with
    | nil => rfl
    | cons top stack =>
      cases top with
      | quote => rfl
      | list opened reversed =>
        have hne : shape ≠ opened := by
          rintro rfl
          exact htop rfl
        simp only [Pending.close, if_neg hne]
  | stray ht hdepth =>
    rw [List.length_map] at hdepth
    rw [Pending.accept, ht]
    simp only [Pending.begin, ht, Nat.not_le.2 hdepth, if_false]
  | deep hother hdepth =>
    rw [List.length_map] at hdepth
    have hbegin : Pending.accept t stack = Pending.begin t stack := by
      cases ht : t.lexeme with
      | closing shape => exact absurd ht (hother shape)
      | _ => rw [Pending.accept, ht]
    rw [hbegin, Pending.begin, if_pos hdepth]
  | quote ht hdepth =>
    rw [List.length_map] at hdepth
    have hlt : stack.length < maxNesting := hdepth ▸ Nat.lt_succ_self _
    rw [Pending.accept, ht]
    simp only [Pending.begin, ht, Nat.not_le.2 hlt, if_false, ge_iff_le, hdepth, Nat.le_refl,
      if_true]

theorem foldl_stopped (ts : List Token) (items : List Item) :
    ts.foldl Reading.step ⟨items, .stopped⟩ = ⟨items, .stopped⟩ := by
  induction ts with
  | nil => rfl
  | cons t ts ih => exact ih

/-- A datum starts at its first token. -/
theorem foldl_between {ts : List Token} {first : Token} (h : ts.head? = some first)
    (items : List Item) : ts.foldl Reading.step ⟨items, .between⟩
      = ts.foldl Reading.step ⟨items, .within first.position [] none⟩ := by
  obtain ⟨more, rfl⟩ := List.head?_eq_some_iff.1 h
  rfl

theorem Pieces.finish_foldl (hA : ∀ text d, A text d → Datum.ofAtom text = d) {size : Nat}
    {ts : List Token} {pieces : List Piece} (h : Pieces A size ts pieces) (items : List Item) :
    (ts.foldl Reading.step ⟨items, .between⟩).finish size
      = (pieces.map Piece.item).reverse ++ items := by
  induction h generalizing items with
  | nil => rfl
  | datum hd hfirst hlast _ ih =>
    rw [List.foldl_append, foldl_between hfirst,
      hd.arrives hA _ _ items _ [] none rfl hlast rfl, Pending.settle, deliver, ih]
    simp [Piece.item]
  | unfinished hbegun hfirst =>
    obtain ⟨stack, -, hstack⟩ := hbegun.arrives hA rfl items _
    rw [foldl_between hfirst, hstack]
    rfl
  | @refused ts rest first t opened fault hbegun hrefuses hfirst =>
    obtain ⟨stack, rfl, hstack⟩ := hbegun.arrives hA rfl items first.position
    have hfirst' : (ts ++ t :: rest).head? = some first := by
      rw [List.append_cons, List.head?_append, hfirst, Option.some_or]
    have hstep : Reading.step ⟨items, .within first.position stack
          (ts.findSome? Token.oversized?)⟩ t
        = ⟨Piece.item ⟨first.position, t.stop, ts, .error fault⟩ :: items, .stopped⟩ := by
      simp only [Reading.step, Reading.take, hrefuses.accept_eq, Piece.item]
    rw [foldl_between hfirst', List.foldl_append, hstack, List.foldl_cons, hstep, foldl_stopped]
    rfl

/-- **The items of a text are those of its pieces.** -/
theorem Pieces.items_eq (hA : ∀ text d, A text d → Datum.ofAtom text = d) {text : List Char}
    {pieces : List Piece} (h : Pieces A text.length (Token.ofText text) pieces) :
    Item.ofText text = pieces.map Piece.item := by
  have hfinish := h.finish_foldl hA []
  rw [Item.ofText, Reading.start, hfinish, List.append_nil, List.reverse_reverse]

end Primer
