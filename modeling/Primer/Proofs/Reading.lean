/-
Primer/Proofs/Reading.lean

The grammar of data, apart from how tokens are spelled.

`Reads depth lexemes d` says that some lexemes denote the datum `d` where
`depth` lists and quote marks are open around them.  It is the grammar of pieces
with numerals in range only (`reads_iff_forms`), and a text that holds one datum is
one piece, so the reader accepts exactly what this grammar allows
(`readOne_eq_ok_iff`).
-/
import Primer.Proofs.Pieces

namespace Primer

/-- Lexemes that denote a datum, under `depth` lists and quote marks. -/
inductive Reads : Nat → List Lexeme → Datum → Prop
  | atom {depth : Nat} {text : List Char} : depth < maxNesting → isOversized text = false →
      Reads depth [.atom text] (.ofAtom text)
  | quote {depth : Nat} {ls : List Lexeme} {d : Datum} : depth + 1 < maxNesting →
      Reads (depth + 1) ls d → Reads depth (.quote :: ls) d.quoted
  | list {depth : Nat} {shape : Bracket} {items : List (List Lexeme × Datum)} :
      depth < maxNesting → (∀ p ∈ items, Reads (depth + 1) p.1 p.2) →
        Reads depth (.opening shape :: ((items.map (·.1)).flatten ++ [.closing shape]))
          (.list (items.map (·.2)))

/-! ### Numerals in range -/

/-- An atom as it is read: a numeral out of range stands for the symbol of the same
spelling. -/
def ReadAs (text : List Char) (d : Datum) : Prop := Datum.ofAtom text = d

theorem exists_readAs (text : List Char) : ∃ d, ReadAs text d := ⟨.ofAtom text, rfl⟩

/-- Lexemes without a numeral out of range. -/
def InRange (ls : List Lexeme) : Prop := ∀ text, .atom text ∈ ls → isOversized text = false

theorem Reads.inRange {depth : Nat} {ls : List Lexeme} {d : Datum} (h : Reads depth ls d) :
    InRange ls := by
  intro text
  induction h with
  | atom _ hsize => simpa using fun htext => htext ▸ hsize
  | quote _ _ ih => simpa using ih
  | list _ _ ih =>
    simp only [List.mem_cons, List.mem_append, List.mem_flatten, List.mem_map]
    rintro (h | ⟨_, ⟨p, hp, rfl⟩, hmem⟩ | h | h)
    · cases h
    · exact ih p hp hmem
    · cases h
    · cases h

theorem Reads.forms {depth : Nat} {ls : List Lexeme} {d : Datum} (h : Reads depth ls d) :
    Forms ReadAs depth ls d := by
  induction h with
  | atom hdepth _ => exact .atom hdepth rfl
  | quote hdepth _ ih => exact .quote hdepth ih
  | list hdepth _ ih => exact .list hdepth ih

theorem Forms.reads {depth : Nat} {ls : List Lexeme} {d : Datum} (h : Forms ReadAs depth ls d)
    (hls : InRange ls) : Reads depth ls d := by
  induction h with
  | atom hdepth hd =>
    subst hd
    exact .atom hdepth (hls _ List.mem_cons_self)
  | quote hdepth _ ih =>
    exact .quote hdepth (ih fun text ht => hls text (List.mem_cons_of_mem _ ht))
  | list hdepth _ ih =>
    refine .list hdepth fun p hp => ih p hp fun text ht => hls text ?_
    have hflatten := List.mem_flatten_of_mem (List.mem_map_of_mem hp) ht
    exact List.mem_cons_of_mem _ (List.mem_append_left _ hflatten)

/-- The two grammars of data. -/
theorem reads_iff_forms {depth : Nat} {ls : List Lexeme} {d : Datum} :
    Reads depth ls d ↔ Forms ReadAs depth ls d ∧ InRange ls :=
  ⟨fun h => ⟨h.forms, h.inRange⟩, fun h => h.1.reads h.2⟩

/-- An item remembers no numeral if all are in range. -/
theorem findSome?_oversized?_eq_none_iff {ts : List Token} :
    ts.findSome? Token.oversized? = none ↔ InRange (ts.map Token.lexeme) := by
  rw [List.findSome?_eq_none_iff]
  constructor
  · intro h text htext
    obtain ⟨t, ht, hl⟩ := List.mem_map.1 htext
    simpa [Token.oversized?, hl] using h t ht
  · intro h t ht
    cases hl : t.lexeme with
    | atom text => simp [Token.oversized?, hl, h text (hl ▸ List.mem_map_of_mem ht)]
    | _ => rw [Token.oversized?, hl]

/-! ### Reading one datum -/

theorem Item.result_eq_ok_iff {i : Item} {d : Datum} :
    i.result = .ok d ↔ i.oversized = none ∧ i.body = .ok d := by
  unfold Item.result
  split <;> simp_all

/-- The lexemes of a text. -/
def lexemes (text : List Char) : List Lexeme := (Token.ofText text).map Token.lexeme

theorem readOne_eq_ok_iff_items {input : String} {d : Datum} :
    readOne input = .ok d ↔ ∃ i, Item.ofText input.toList = [i] ∧ i.result = .ok d := by
  simp only [readOne]
  cases Item.ofText input.toList with
  | nil => simp
  | cons first others =>
    cases hfirst : first.result with
    | error fault => simp [hfirst]
    | ok d' => cases others <;> simp [hfirst]

/-- **A text holds exactly one datum if its lexemes denote it.** -/
theorem readOne_eq_ok_iff {input : String} {d : Datum} :
    readOne input = .ok d ↔ Reads 0 (lexemes input.toList) d := by
  rw [readOne_eq_ok_iff_items, reads_iff_forms]
  constructor
  · rintro ⟨i, hi, hd⟩
    obtain ⟨pieces, hpieces⟩ :=
      exists_pieces exists_readAs input.toList.length (Token.ofText input.toList)
    rw [hpieces.items_eq fun _ _ h => h] at hi
    obtain ⟨hover, hbody⟩ := Item.result_eq_ok_iff.1 hd
    rw [lexemes]
    generalize Token.ofText input.toList = ts at hpieces
    cases hpieces with
    | nil => cases hi
    | datum hforms _ _ hrest =>
      obtain ⟨rfl, hnil⟩ := List.cons.inj hi
      cases hbody
      -- no piece comes after it, so all the tokens are its own
      rw [List.map_eq_nil_iff.1 hnil] at hrest
      cases hrest
      rw [List.append_nil]
      exact ⟨hforms, findSome?_oversized?_eq_none_iff.1 hover⟩
    | unfinished =>
      obtain ⟨rfl, -⟩ := List.cons.inj hi
      cases hbody
    | refused =>
      obtain ⟨rfl, -⟩ := List.cons.inj hi
      cases hbody
  · rintro ⟨hforms, hrange⟩
    have hne : Token.ofText input.toList ≠ [] := fun hnil => hforms.ne_nil (by simp [lexemes, hnil])
    have hpieces : Pieces ReadAs input.toList.length (Token.ofText input.toList ++ []) _ :=
      .datum hforms (List.head?_eq_some_head hne) (List.getLast?_eq_some_getLast hne) .nil
    rw [List.append_nil] at hpieces
    refine ⟨_, hpieces.items_eq fun _ _ h => h, ?_⟩
    exact Item.result_eq_ok_iff.2 ⟨findSome?_oversized?_eq_none_iff.2 hrange, rfl⟩

end Primer
