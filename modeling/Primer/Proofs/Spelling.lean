/-
Primer/Proofs/Spelling.lean

How lexemes are spelled, and texts that denote a datum.

Text is scanned one character at a time, and an atom ends only at a delimiter
after it.  `Spells u ls` says that a text `u` gives the lexemes `ls` wherever
it is put between tokens, provided that a delimiter or the end of the text
follows.  So texts can be put together: side by side with a space between
them, inside round brackets, and after a quote mark.

`Written depth u d` says that `u` spells lexemes that denote `d` at that depth
of nesting.  A datum that was read from a text is one that `Fits`: its symbols
are spelled as symbols and it is not nested too deeply.  Its own printed form
is a text for it (`Datum.Fits.written`), so it can be read again
(`readOne_text_of_readOne`).
-/
import Mathlib.Data.List.Forall2
import Primer.Proofs.Reading

namespace Primer

/-! ### Atoms in a text -/

/-- Characters that make up one atom. -/
structure IsAtom (text : List Char) : Prop where
  nonempty : text ≠ []
  plain : ∀ c ∈ text, Text.isDelimiter c = false
  /-- it does not start with a quote mark -/
  unquoted : ∀ c ∈ text.head?, c.toNat ≠ 39

theorem isAtom_iff_all {text : List Char} :
    (!text.isEmpty && text.all (fun c => !Text.isDelimiter c) &&
      text.head?.all fun c => c.toNat != 39) = true ↔ IsAtom text := by
  simp only [Bool.and_eq_true, Bool.not_eq_true', List.isEmpty_eq_false_iff, List.all_eq_true,
    Option.all_eq_true, bne_iff_ne]
  exact ⟨fun h => ⟨h.1.1, h.1.2, h.2⟩, fun h => ⟨⟨h.nonempty, h.plain⟩, h.unquoted⟩⟩

instance (text : List Char) : Decidable (IsAtom text) :=
  decidable_of_iff _ isAtom_iff_all

theorem IsAtom.snoc {text : List Char} {c : Char} (h : IsAtom text)
    (hc : Text.isDelimiter c = false) : IsAtom (text ++ [c]) := by
  refine ⟨by simp, fun c' hc' => ?_, ?_⟩
  · rcases List.mem_append.1 hc' with hmem | hmem
    · exact h.plain c' hmem
    · obtain rfl : c' = c := by simpa using hmem
      exact hc
  · rw [List.head?_append_of_ne_nil _ h.nonempty]
    exact h.unquoted

theorem isDelimiter_of_isLayout {c : Char} (h : Text.isLayout c = true) :
    Text.isDelimiter c = true := by
  simp only [Text.isLayout, Bool.or_eq_true, beq_iff_eq] at h
  rcases h with ((rfl | rfl) | rfl) | rfl <;> decide

namespace Scan

/-- A character that is neither a delimiter nor a quote mark begins an atom. -/
theorem opens_of_plain (p : Position) {c : Char} (hc : Text.isDelimiter c = false)
    (hq : c.toNat ≠ 39) : opens p c = (.atom p [c], none) := by
  have hlayout : Text.isLayout c = false := by
    by_contra h
    rw [isDelimiter_of_isLayout (by simpa using h)] at hc
    cases hc
  have hd := hc
  simp only [Text.isDelimiter, Bool.or_eq_false_iff] at hd
  simp [opens, hlayout, hd, hc, hq]

/-- Only atoms are made of more than one character. -/
theorem opens_ne_atom (p : Position) (c : Char) (text : List Char) :
    (opens p c).2 ≠ some (.atom text) := by
  unfold opens
  repeat' split
  all_goals simp

/-- An atom begins with a character that is neither a delimiter nor a quote mark. -/
theorem isAtom_of_opens {p p' : Position} {c : Char} {reversed : List Char}
    (h : (opens p c).1 = .atom p' reversed) : IsAtom reversed.reverse := by
  unfold opens at h
  repeat' split at h
  all_goals cases h
  next hq hd => exact ⟨by simp, by simpa using hd, by simpa using hq⟩

/-- The atoms found so far, and the one that is being read, are atoms. -/
structure AtomsOnly (s : Scan) : Prop where
  found : ∀ text p, ⟨.atom text, p⟩ ∈ s.found → IsAtom text
  mode : ∀ p reversed, s.mode = .atom p reversed → IsAtom reversed.reverse

theorem atomsOnly_enter (s : Scan) (c : Char) {before : List Token}
    (h : ∀ text p, ⟨.atom text, p⟩ ∈ before → IsAtom text) : (s.enter c before).AtomsOnly := by
  have hnot := opens_ne_atom s.position c
  have hatom : ∀ p reversed, (opens s.position c).1 = .atom p reversed →
      IsAtom reversed.reverse := fun _ _ => isAtom_of_opens
  unfold enter
  generalize opens s.position c = o at hnot hatom
  obtain ⟨mode, _ | lexeme⟩ := o
  · exact ⟨h, fun p reversed hm => hatom p reversed hm⟩
  · refine ⟨fun text p hmem => ?_, fun p reversed hm => hatom p reversed hm⟩
    rcases List.mem_cons.1 hmem with heq | hmem
    · exact absurd (by simp [(Token.mk.inj heq).1]) (hnot text)
    · exact h text p hmem

theorem AtomsOnly.finish {s : Scan} (h : s.AtomsOnly) {text : List Char} {p : Position}
    (hmem : ⟨.atom text, p⟩ ∈ s.finish) : IsAtom text := by
  unfold Scan.finish at hmem
  split at hmem
  · exact h.found text p hmem
  · next p' reversed hm =>
    rcases List.mem_cons.1 hmem with heq | hmem
    · obtain rfl : text = reversed.reverse := by simpa using (Token.mk.inj heq).1
      exact h.mode p' reversed hm
    · exact h.found text p hmem
  · exact h.found text p hmem
  · rcases List.mem_cons.1 hmem with heq | hmem
    · cases (Token.mk.inj heq).1
    · exact h.found text p hmem

theorem AtomsOnly.step {s : Scan} (h : s.AtomsOnly) (c : Char) : (s.step c).AtomsOnly := by
  have hfinish : (s.enter c s.finish).AtomsOnly :=
    atomsOnly_enter s c fun text p => h.finish
  unfold Scan.step
  unfold Scan.finish at hfinish
  cases hm : s.mode with
  | between =>
    rw [hm] at hfinish
    exact hfinish
  | atom p reversed =>
    -- a delimiter ends the atom, and any other character belongs to it
    rw [hm] at hfinish
    dsimp only
    split
    · exact hfinish
    · next hc =>
      refine ⟨h.found, fun p' reversed' hm' => ?_⟩
      obtain ⟨rfl, rfl⟩ := Mode.atom.inj hm'
      rw [List.reverse_cons]
      exact (h.mode p reversed hm).snoc (by simpa using hc)
  | comment p =>
    refine ⟨h.found, fun p' reversed' hm' => ?_⟩
    dsimp only at hm'
    split at hm'
    · cases hm'
    · split at hm' <;> cases hm'
  | carriage p =>
    rw [hm] at hfinish
    dsimp only
    split
    · exact ⟨h.found, fun p' reversed' hm' => by cases hm'⟩
    · exact hfinish

end Scan

/-- The atoms among the lexemes of a text are atoms. -/
theorem isAtom_of_mem_lexemes {text atom : List Char} (h : .atom atom ∈ lexemes text) :
    IsAtom atom := by
  have hfold : ∀ (cs : List Char) (s : Scan), s.AtomsOnly → (cs.foldl Scan.step s).AtomsOnly := by
    intro cs
    induction cs with
    | nil => exact fun s hs => hs
    | cons c cs ih => exact fun s hs => ih _ (hs.step c)
  have hstart : Scan.start.AtomsOnly :=
    ⟨fun _ _ hmem => (nomatch hmem), fun _ _ hm => (nomatch hm)⟩
  obtain ⟨t, ht, hlexeme⟩ := List.mem_map.1 h
  obtain ⟨lexeme, p⟩ := t
  obtain rfl : lexeme = .atom atom := hlexeme
  exact (hfold text .start hstart).finish (List.mem_reverse.1 ht)

/-! ### Spelling -/

namespace Scan

/-- No comment is open. -/
def Settled (s : Scan) : Prop := s.mode = .between ∨ ∃ p reversed, s.mode = .atom p reversed

/-- The lexemes of a text that ends here. -/
def lexemes (s : Scan) : List Lexeme := (s.finish.map Token.lexeme).reverse

/-- A delimiter ends the atom before it. -/
theorem Settled.step_delimiter {s : Scan} (h : s.Settled) {c : Char}
    (hc : Text.isDelimiter c = true) : s.step c = s.enter c s.finish := by
  unfold step finish
  rcases h with h | ⟨p, reversed, h⟩
  · rw [h]
  · rw [h]
    simp only [hc, if_true]

/-- After a delimiter that makes no token, or a token by itself. -/
theorem enter_eq_of_opens {s : Scan} {c : Char} {l : Option Lexeme}
    (h : opens s.position c = (.between, l)) (before : List Token) :
    (s.enter c before).mode = .between ∧
      (s.enter c before).lexemes = (before.map Token.lexeme).reverse ++ l.toList := by
  unfold enter
  rw [h]
  cases l <;> simp [lexemes, finish]

end Scan

/-- The characters of an atom, from between tokens. -/
theorem Scan.foldl_atom {u : List Char} (h : IsAtom u) {s : Scan} (hs : s.mode = .between) :
    ∃ q, u.foldl step s = ⟨.atom s.position u.reverse, q, s.found⟩ := by
  obtain ⟨c, cs, rfl⟩ := List.exists_cons_of_ne_nil h.nonempty
  have hc : Text.isDelimiter c = false := h.plain c List.mem_cons_self
  -- the characters after the first are added to the atom that it begins
  have hrest : ∀ (rest reversed : List Char) (q : Position),
      (∀ d ∈ rest, Text.isDelimiter d = false) →
        ∃ q', rest.foldl step ⟨.atom s.position reversed, q, s.found⟩
          = ⟨.atom s.position (rest.reverse ++ reversed), q', s.found⟩ := by
    intro rest
    induction rest with
    | nil => exact fun reversed q _ => ⟨q, rfl⟩
    | cons d rest ih =>
      intro reversed q hplain
      obtain ⟨q', hq'⟩ := ih (d :: reversed) (q.advance d) fun d' hd' =>
        hplain d' (List.mem_cons_of_mem d hd')
      refine ⟨q', ?_⟩
      rw [List.foldl_cons, step]
      simpa [hplain d List.mem_cons_self] using hq'
  have hfirst : s.step c = ⟨.atom s.position [c], s.position.advance c, s.found⟩ := by
    rw [step, hs]
    simp only [enter, opens_of_plain s.position hc (h.unquoted c (by simp))]
  obtain ⟨q, hq⟩ := hrest cs [c] (s.position.advance c) fun d hd =>
    h.plain d (List.mem_cons_of_mem c hd)
  refine ⟨q, ?_⟩
  rw [List.foldl_cons, hfirst, hq, List.reverse_cons]

/-- A text that gives these lexemes wherever it is put between tokens. -/
def Spells (u : List Char) (ls : List Lexeme) : Prop :=
  ∀ s : Scan, s.mode = .between →
    (u.foldl Scan.step s).Settled ∧ (u.foldl Scan.step s).lexemes = s.lexemes ++ ls

namespace Spells

variable {u v : List Char} {ls ls' : List Lexeme}

theorem lexemes_eq (h : Spells u ls) : lexemes u = ls := by
  have hu := (h .start rfl).2
  rw [Scan.lexemes, ← List.map_reverse] at hu
  exact hu

theorem nil : Spells [] [] := fun s hs => ⟨.inl hs, by simp⟩

/-- A text after one character that is a token by itself, or none. -/
theorem cons {c : Char} {l : Option Lexeme} (hc : ∀ p, Scan.opens p c = (.between, l))
    (h : Spells u ls) : Spells (c :: u) (l.toList ++ ls) := by
  intro s hs
  have hstep : s.step c = s.enter c s.found := by rw [Scan.step, hs]
  obtain ⟨hmode, hlexemes⟩ := Scan.enter_eq_of_opens (hc s.position) s.found
  obtain ⟨hsettled, hrest⟩ := h _ hmode
  rw [List.foldl_cons, hstep]
  refine ⟨hsettled, ?_⟩
  have hfound : s.lexemes = (s.found.map Token.lexeme).reverse := by
    rw [Scan.lexemes, Scan.finish, hs]
  rw [hrest, hlexemes, hfound, List.append_assoc]

/-- Two texts with one character between them that ends an atom. -/
theorem append {c : Char} {l : Option Lexeme} (hdelim : Text.isDelimiter c = true)
    (hc : ∀ p, Scan.opens p c = (.between, l)) (h : Spells u ls) (h' : Spells v ls') :
    Spells (u ++ c :: v) (ls ++ (l.toList ++ ls')) := by
  intro s hs
  obtain ⟨hsettled, hu⟩ := h s hs
  rw [List.foldl_append, List.foldl_cons]
  generalize u.foldl Scan.step s = t at hsettled hu
  obtain ⟨hmode, hlexemes⟩ := Scan.enter_eq_of_opens (hc t.position) t.finish
  obtain ⟨hsettled', hv⟩ := h' _ hmode
  rw [hsettled.step_delimiter hdelim]
  refine ⟨hsettled', ?_⟩
  have ht : (t.finish.map Token.lexeme).reverse = t.lexemes := rfl
  rw [hv, hlexemes, ht, hu, List.append_assoc, List.append_assoc]

theorem space (h : Spells u ls) (h' : Spells v ls') : Spells (u ++ ' ' :: v) (ls ++ ls') :=
  h.append (l := none) (by decide) (fun _ => rfl) h'

/-- A text in round brackets. -/
theorem brackets (h : Spells u ls) :
    Spells ('(' :: (u ++ [')'])) (.opening .round :: (ls ++ [.closing .round])) :=
  (h.append (l := some (.closing .round)) (by decide) (fun _ => rfl) nil).cons
    (l := some (.opening .round)) fun _ => rfl

theorem quote (h : Spells u ls) : Spells ("'".toList ++ u) (.quote :: ls) :=
  h.cons (l := some .quote) fun _ => rfl

theorem atom (h : IsAtom u) : Spells u [.atom u] := by
  intro s hs
  obtain ⟨q, hq⟩ := Scan.foldl_atom h hs
  rw [hq]
  refine ⟨.inr ⟨_, _, rfl⟩, ?_⟩
  simp [Scan.lexemes, Scan.finish, Scan.atomToken, hs]

end Spells

/-! ### Numerals -/

namespace Number

theorem digitsValue_eq_ofDigitChars (cs : List Char) (acc : Nat) :
    digitsValue acc cs = Nat.ofDigitChars 10 cs acc := by
  induction cs generalizing acc with
  | nil => rfl
  | cons c cs ih =>
    show digitsValue (acc * 10 + (c.toNat - 48)) cs = _
    rw [ih, Nat.ofDigitChars_cons, Nat.mul_comm]
    rfl

theorem isDigit_eq (c : Char) : isDigit c = c.isDigit := by
  simp only [isDigit, Char.isDigit, ge_iff_le, Char.toNat, UInt32.le_iff_toNat_le]
  rfl

/-- The digits of a natural number are digits, and the number is their value. -/
theorem digits_repr (n : Nat) :
    allDigits n.repr.toList = true ∧ digitsValue 0 n.repr.toList = n := by
  rw [Nat.toList_repr, digitsValue_eq_ofDigitChars]
  refine ⟨?_, Nat.ofDigitChars_toDigits (by decide) (by decide)⟩
  rw [allDigits, Bool.and_eq_true]
  refine ⟨by simp [Nat.toDigits_ne_nil], List.all_eq_true.2 fun c hc => ?_⟩
  rw [isDigit_eq]
  exact Nat.isDigit_of_mem_toDigits (by decide) (by decide) hc

theorem isDelimiter_of_isDigit {c : Char} (h : isDigit c = true) : Text.isDelimiter c = false := by
  simp only [isDigit, Bool.and_eq_true, decide_eq_true_eq] at h
  have hne : ∀ d : Char, d.toNat < 48 ∨ 57 < d.toNat → (c == d) = false := by
    intro d hd
    refine beq_false_of_ne ?_
    rintro rfl
    omega
  have hblank : Text.isBlank c = false := by
    simp only [Text.isBlank, Text.inRanges, Text.blankRanges, List.any_cons, List.any_nil]
    simp
    omega
  simp [Text.isDelimiter, hblank, hne]

theorem isAtom_of_allDigits {cs : List Char} (h : allDigits cs = true) : IsAtom cs := by
  rw [allDigits, Bool.and_eq_true, List.all_eq_true] at h
  refine ⟨by simpa using h.1, fun c hc => isDelimiter_of_isDigit (h.2 c hc), fun c hc hq => ?_⟩
  have hdigit := h.2 c (List.mem_of_mem_head? hc)
  rw [isDigit, hq] at hdigit
  cases hdigit

/-- The printed form of a number: digits, after a minus sign if it is negative. -/
theorem toList_text (n : Number) :
    (∃ k : Nat, n.val = k ∧ n.text.toList = k.repr.toList) ∨
      ∃ k : Nat, n.val = -(k : Int) ∧ n.text.toList = '-' :: k.repr.toList := by
  unfold text
  rw [Int.toString_eq_repr]
  cases n.val with
  | ofNat k => exact .inl ⟨k, rfl, rfl⟩
  | negSucc k => exact .inr ⟨k + 1, rfl, String.toList_append⟩

theorem numeral?_text (n : Number) : numeral? n.text.toList = some n.val := by
  rcases n.toList_text with ⟨k, hval, htext⟩ | ⟨k, hval, htext⟩
  · obtain ⟨hdigits, hvalue⟩ := digits_repr k
    have hsign : ∀ (c : Char) (ds : List Char), isDigit c = false → k.repr.toList ≠ c :: ds := by
      intro c ds hc heq
      rw [heq] at hdigits
      simp [allDigits, hc] at hdigits
    rw [htext, numeral?.eq_3 _ (fun ds => hsign _ ds (by decide)) fun ds => hsign _ ds (by decide),
      if_pos hdigits, hvalue, hval]
  · obtain ⟨hdigits, hvalue⟩ := digits_repr k
    rw [htext, numeral?.eq_2, if_pos hdigits, hvalue, hval]

theorem isAtom_text (n : Number) : IsAtom n.text.toList := by
  rcases n.toList_text with ⟨k, -, htext⟩ | ⟨k, -, htext⟩
  · rw [htext]
    exact isAtom_of_allDigits (digits_repr k).1
  · rw [htext]
    refine ⟨by simp, fun c hc => ?_, by simp⟩
    rcases List.mem_cons.1 hc with rfl | hc
    · decide
    · exact (isAtom_of_allDigits (digits_repr k).1).plain c hc

theorem ofAtom_text (n : Number) : Datum.ofAtom n.text.toList = .number n := by
  have hne : ∀ cs, numeral? cs = none → n.text.toList ≠ cs := by
    intro cs hcs heq
    rw [← heq, numeral?_text] at hcs
    cases hcs
  rw [Datum.ofAtom, if_neg (hne _ (by decide)), if_neg (hne _ (by decide)), numeral?_text,
    Option.bind_some, ofInt?_val]

theorem isOversized_text (n : Number) : isOversized n.text.toList = false := by
  simp [isOversized, numeral?_text]

end Number

/-! ### Texts of data -/

/-- A text that denotes a datum, under `depth` lists and quote marks. -/
def Written (depth : Nat) (u : String) (d : Datum) : Prop :=
  ∃ ls, Spells u.toList ls ∧ Reads depth ls d

/-- A name that is read as the symbol of that name. -/
structure IsSymbol (name : String) : Prop where
  atom : IsAtom name.toList
  small : isOversized name.toList = false
  symbol : Datum.ofAtom name.toList = .symbol name

/-- Texts in round brackets, separated by single spaces. -/
def bracketed (us : List String) : String := "(" ++ " ".intercalate us ++ ")"

namespace Written

variable {depth : Nat}

/-- What is written at the outermost level can be read. -/
theorem readOne_eq {u : String} {d : Datum} (h : Written 0 u d) : readOne u = .ok d := by
  obtain ⟨ls, hspells, hreads⟩ := h
  rw [readOne_eq_ok_iff, hspells.lexemes_eq]
  exact hreads

theorem number (h : depth < maxNesting) (n : Number) : Written depth n.text (.number n) := by
  refine ⟨_, .atom n.isAtom_text, ?_⟩
  rw [← n.ofAtom_text]
  exact .atom h n.isOversized_text

theorem bool (h : depth < maxNesting) (b : Bool) : Written depth (boolText b) (.bool b) := by
  cases b with
  | true => exact ⟨_, .atom (by decide), @Reads.atom _ ['#', 't'] h (by decide)⟩
  | false => exact ⟨_, .atom (by decide), @Reads.atom _ ['#', 'f'] h (by decide)⟩

theorem symbol (h : depth < maxNesting) {name : String} (hname : IsSymbol name) :
    Written depth name (.symbol name) := by
  refine ⟨_, .atom hname.atom, ?_⟩
  rw [← hname.symbol]
  exact .atom h hname.small

theorem quoted (h : depth + 1 < maxNesting) {u : String} {d : Datum}
    (hd : Written (depth + 1) u d) : Written depth ("'" ++ u) d.quoted := by
  obtain ⟨ls, hspells, hreads⟩ := hd
  refine ⟨.quote :: ls, ?_, .quote h hreads⟩
  rw [String.toList_append]
  exact hspells.quote

/-- Data side by side. -/
theorem spells_intercalate {us : List String} {ds : List Datum}
    (h : List.Forall₂ (Written depth) us ds) :
    ∃ items : List (List Lexeme × Datum), Spells (" ".intercalate us).toList
      (items.map (·.1)).flatten ∧ items.map (·.2) = ds ∧ ∀ p ∈ items, Reads depth p.1 p.2 := by
  induction h with
  | nil => exact ⟨[], .nil, rfl, by simp⟩
  | @cons u d us ds hu hus ih =>
    obtain ⟨ls, hspells, hreads⟩ := hu
    obtain ⟨items, hitems, hds, hall⟩ := ih
    refine ⟨(ls, d) :: items, ?_, by rw [List.map_cons, hds], ?_⟩
    · cases hus with
      | nil =>
        obtain rfl : items = [] := by simpa using hds
        simpa [String.intercalate_singleton] using hspells
      | cons _ _ =>
        have hboth := hspells.space hitems
        simpa [String.intercalate_cons_cons, String.toList_append] using hboth
    · intro p hp
      rcases List.mem_cons.1 hp with rfl | hp
      · exact hreads
      · exact hall p hp

theorem list (h : depth < maxNesting) {us : List String} {ds : List Datum}
    (hds : List.Forall₂ (Written (depth + 1)) us ds) : Written depth (bracketed us) (.list ds) := by
  obtain ⟨items, hspells, rfl, hall⟩ := spells_intercalate hds
  refine ⟨_, ?_, @Reads.list _ .round items h hall⟩
  have hbrackets := hspells.brackets
  simpa [bracketed, String.toList_append] using hbrackets

end Written

/-! ### Data that were read -/

namespace Datum

/-- A datum whose symbols are spelled as symbols and that is not nested too deeply. -/
inductive Fits : Nat → Datum → Prop
  | number {depth : Nat} (n : Number) : depth < maxNesting → Fits depth (.number n)
  | bool {depth : Nat} (b : Bool) : depth < maxNesting → Fits depth (.bool b)
  | symbol {depth : Nat} {name : String} : depth < maxNesting → IsSymbol name →
      Fits depth (.symbol name)
  | list {depth : Nat} {ds : List Datum} : depth < maxNesting →
      (∀ d ∈ ds, Fits (depth + 1) d) → Fits depth (.list ds)

theorem Fits.lt {depth : Nat} {d : Datum} (h : Fits depth d) : depth < maxNesting := by
  cases h <;> assumption

theorem textItems_eq (ds : List Datum) : textItems ds = " ".intercalate (ds.map text) := by
  induction ds with
  | nil => rfl
  | cons d ds ih =>
    cases ds with
    | nil => simp [textItems, String.intercalate_singleton]
    | cons d' ds =>
      simp only [textItems, ih, List.map_cons, String.intercalate_cons_cons]

/-- The printed form of a datum is a text for it. -/
theorem Fits.written {depth : Nat} {d : Datum} (h : Fits depth d) : Written depth d.text d := by
  induction h with
  | number n h => exact .number h n
  | bool b h => exact .bool h b
  | symbol h hname => exact .symbol h hname
  | @list depth ds h _ ih =>
    have htext : (Datum.list ds).text = bracketed (ds.map text) := by
      rw [text, textItems_eq, bracketed]
    rw [htext]
    refine .list h ?_
    rw [List.forall₂_map_left_iff, List.forall₂_same]
    exact ih

theorem fits_ofAtom {depth : Nat} (h : depth < maxNesting) {cs : List Char} (hcs : IsAtom cs)
    (hsmall : isOversized cs = false) : Fits depth (.ofAtom cs) := by
  have hsymbol : Datum.ofAtom cs = .symbol (String.ofList cs) → IsSymbol (String.ofList cs) := by
    intro hsym
    refine ⟨?_, ?_, ?_⟩ <;> rw [String.toList_ofList] <;> assumption
  by_cases ht : cs = ['#', 't']
  · subst ht
    exact .bool true h
  by_cases hf : cs = ['#', 'f']
  · subst hf
    exact .bool false h
  cases hn : (Number.numeral? cs).bind Number.ofInt? with
  | some n =>
    have hatom : Datum.ofAtom cs = .number n := by
      simp only [Datum.ofAtom, ht, hf, hn, if_false]
    rw [hatom]
    exact .number n h
  | none =>
    have hatom : Datum.ofAtom cs = .symbol (String.ofList cs) := by
      simp only [Datum.ofAtom, ht, hf, hn, if_false]
    rw [hatom]
    exact .symbol h (hsymbol hatom)

/-- What is read from atoms fits. -/
theorem fits_of_reads {depth : Nat} {ls : List Lexeme} {d : Datum} (h : Reads depth ls d)
    (hls : ∀ cs, .atom cs ∈ ls → IsAtom cs) : Fits depth d := by
  induction h with
  | atom h hsmall => exact fits_ofAtom h (hls _ List.mem_cons_self) hsmall
  | @quote depth ls d h _ ih =>
    have hd : Fits (depth + 1) d := ih fun cs hcs => hls cs (List.mem_cons_of_mem _ hcs)
    refine .list (Nat.lt_of_succ_lt h) fun d' hd' => ?_
    rcases List.mem_cons.1 hd' with rfl | hd'
    · exact .symbol h ⟨by decide, by decide, rfl⟩
    · obtain rfl : d' = d := by simpa using hd'
      exact hd
  | @list depth shape items h _ ih =>
    refine .list h fun d hd => ?_
    obtain ⟨p, hp, rfl⟩ := List.mem_map.1 hd
    refine ih p hp fun cs hcs => hls cs ?_
    have hflat : Lexeme.atom cs ∈ (items.map (·.1)).flatten :=
      List.mem_flatten.2 ⟨p.1, List.mem_map_of_mem hp, hcs⟩
    exact List.mem_cons_of_mem _ (List.mem_append_left _ hflat)

/-- What is read from a text fits. -/
theorem fits_of_readOne {input : String} {d : Datum} (h : readOne input = .ok d) : Fits 0 d :=
  fits_of_reads (readOne_eq_ok_iff.1 h) fun _ => isAtom_of_mem_lexemes

end Datum

/-- **Data print canonically.**  The printed form of a datum that was read from a text
is a text from which the same datum is read, whatever the first text looked like. -/
theorem readOne_text_of_readOne (t : String) (d : Datum) (h : readOne t = .ok d) :
    readOne d.text = .ok d :=
  (Datum.fits_of_readOne h).written.readOne_eq

/-- A comment, a quote mark, square brackets, padded numerals, a quote mark inside a symbol
and letters beyond ASCII. -/
theorem readOne_text_of_readOne_brackets :
    let t := "; c\r\n'[+07 -000 (a'b . #t) [] λ→]"
    let d : Datum := .quoted (.list [.number ⟨7, by decide, by decide⟩, .number .zero,
      .list [.symbol "a'b", .symbol ".", .bool true], .list [], .symbol "λ→"])
    readOne t = .ok d ∧ readOne d.text = .ok d := by
  intro t d
  have ht : readOne t = .ok d := by
    simp only [t, d]
    rfl
  exact ⟨ht, readOne_text_of_readOne t d ht⟩

end Primer
