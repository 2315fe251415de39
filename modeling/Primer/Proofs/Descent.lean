/-
Primer/Proofs/Descent.lean

The reader that goes down into the data.

The reader of `Primer.Reader` takes one token after the other and keeps a stack.  Here
is the reader as its grammar suggests it: a datum calls for the data inside it
(`Descent.datum`, `Descent.elements`).  With literals checked it stops at the first
numeral out of range.  Where the datum ends is then found by reading it once more, with
literals unchecked (`Descent.findings`), and the lines are counted on from one datum to
the next (`Descent.entries`).

Both readers find the same, faults and lines included (`readAll_eq_entries`,
`readOne_eq_single`).  The proof goes over the pieces of a text:

* what makes up a datum is read as this datum, unless a numeral stops it
  (`Forms.comes`);
* where a datum has begun, the reader is inside everything that is open, so it comes
  back with the fault that it meets there (`Begun.fails`).
-/
import Primer.Proofs.Coverage

namespace Primer

namespace Descent

/-- Whether a numeral out of range is a fault. -/
inductive Literals where
  | checked
  | unchecked

/-- The fault of a token by itself. -/
def Literals.fault? : Literals → Token → Option Fault
  | checked, t => t.oversized?
  | unchecked, _ => none

/-- What was read from the front of some tokens, and the tokens after it. -/
structure Taken (α : Type) (ts : List Token) where
  found : α
  rest : List Token
  fewer : rest.length < ts.length

/-- The elements of a list, up to the bracket that closes it.  `datum` is given the
offset where it starts. -/
def elements (datum : Nat → (ts : List Token) → Except Fault (Taken Datum ts)) (size : Nat)
    (shape : Bracket) : (ts : List Token) → Except Fault (Taken (List Datum) ts)
  | [] => .error ⟨.endOfText, size⟩
  | t :: ts =>
      match t.lexeme with
      | .closing closing =>
          if closing = shape then .ok ⟨[], ts, Nat.lt_succ_self _⟩
          else .error ⟨.misplaced, t.offset⟩
      | _ =>
          match datum t.offset (t :: ts) with
          | .error fault => .error fault
          | .ok first => (elements datum size shape first.rest).map fun others =>
              ⟨first.found :: others.found, others.rest, Nat.lt_trans others.fewer first.fewer⟩
termination_by ts => ts.length
decreasing_by exact first.fewer

/-- The datum at `offset` in a text of `size` characters, where `levels` more levels may
be opened. -/
def datum (literals : Literals) (size : Nat) :
    (levels offset : Nat) → (ts : List Token) → Except Fault (Taken Datum ts)
  | 0, offset, _ => .error ⟨.tooDeep, offset⟩
  | _ + 1, _, [] => .error ⟨.endOfText, size⟩
  | levels + 1, _, t :: ts =>
      match t.lexeme with
      | .quote => (datum literals size levels t.stop ts).map fun taken =>
          ⟨taken.found.quoted, taken.rest, Nat.lt_succ_of_lt taken.fewer⟩
      | .opening shape =>
          (elements (datum literals size levels) size shape ts).map fun taken =>
            ⟨.list taken.found, taken.rest, Nat.lt_succ_of_lt taken.fewer⟩
      | .atom text =>
          match literals.fault? t with
          | some fault => .error fault
          | none => .ok ⟨.ofAtom text, ts, Nat.lt_succ_self _⟩
      | _ => .error ⟨.misplaced, t.offset⟩

/-- The data of some tokens, with the offsets where they start.  A datum with a numeral
out of range is read again, to see where it ends. -/
def findings (size : Nat) : List Token → List (Nat × Except Fault Datum)
  | [] => []
  | t :: ts =>
      match datum .checked size maxNesting t.offset (t :: ts) with
      | .ok taken => (t.offset, .ok taken.found) :: findings size taken.rest
      | .error fault =>
          (t.offset, .error fault) ::
            match fault.obstacle, datum .unchecked size maxNesting t.offset (t :: ts) with
            | .oversized _, .ok taken => findings size taken.rest
            | _, _ => []
termination_by ts => ts.length
decreasing_by all_goals exact taken.fewer

/-- A line and an offset on it.  Both only move forward. -/
structure Counter where
  line : Nat
  offset : Nat

/-- Count on to an offset. -/
def Counter.goTo (c : Counter) (text : List Char) (offset : Nat) : Counter :=
  if c.offset ≤ offset then
    ⟨c.line + ((text.take offset).drop c.offset).count '\n', offset⟩
  else c

/-- The entries of a source, with their lines counted on from one to the next. -/
def entries (source : String) (text : List Char) :
    Counter → List (Nat × Except Fault Datum) → List Entry
  | _, [] => []
  | c, (start, result) :: others =>
      let location : Location := ⟨source, (c.goTo text start).line⟩
      ⟨location, result.mapError fun fault =>
          ((fault.since start).report (text.drop start)).locate location⟩
        :: entries source text (c.goTo text start) others

/-- What was read, apart from the tokens it was read from. -/
def parts {α : Type} {ts : List Token} (x : Except Fault (Taken α ts)) :
    Except Fault (α × List Token) :=
  x.map fun taken => (taken.found, taken.rest)

/-- The datum of a text that holds exactly one. -/
def single (text : List Char) : Except SyntaxError Datum :=
  match parts (datum .checked text.length maxNesting 0 (Token.ofText text)) with
  | .error fault => .error (fault.report text)
  | .ok (d, []) => .ok d
  | .ok (_, next :: _) => .error (leftover text next.offset)

/-! ### One step down -/

/-- A fault that comes ahead of everything else, if there is one. -/
def after {α : Type} (ahead : Option Fault) (x : Except Fault α) : Except Fault α :=
  ahead.elim x .error

theorem after_or {α : Type} (a b : Option Fault) (x : Except Fault α) :
    after (a.or b) x = after a (after b x) := by
  cases a <;> rfl

theorem after_map {α β : Type} (a : Option Fault) (x : Except Fault α) (f : α → β) :
    (after a x).map f = after a (x.map f) := by
  cases a <;> rfl

theorem after_error {α : Type} (ahead : Option Fault) (fault : Fault) :
    (after ahead (.error fault) : Except Fault α) = .error (ahead.getD fault) := by
  cases ahead <;> rfl

section Steps

variable {literals : Literals} {size levels : Nat} {t : Token}

theorem parts_datum_atom {text : List Char} (ht : t.lexeme = .atom text) (offset : Nat)
    (ts : List Token) : parts (datum literals size (levels + 1) offset (t :: ts))
      = after (literals.fault? t) (.ok (.ofAtom text, ts)) := by
  rw [datum, ht]
  cases literals.fault? t <;> rfl

theorem parts_datum_quote (ht : t.lexeme = .quote) (offset : Nat) (ts : List Token) :
    parts (datum literals size (levels + 1) offset (t :: ts))
      = (parts (datum literals size levels t.stop ts)).map fun p => (p.1.quoted, p.2) := by
  rw [datum, ht]
  cases datum literals size levels t.stop ts <;> rfl

theorem parts_datum_opening {shape : Bracket} (ht : t.lexeme = .opening shape) (offset : Nat)
    (ts : List Token) : parts (datum literals size (levels + 1) offset (t :: ts))
      = (parts (elements (datum literals size levels) size shape ts)).map
          fun p => (.list p.1, p.2) := by
  rw [datum, ht]
  dsimp only
  cases elements (datum literals size levels) size shape ts <;> rfl

theorem parts_elements_closing {f : Nat → (ts : List Token) → Except Fault (Taken Datum ts)}
    {shape : Bracket} (ht : t.lexeme = .closing shape) (ts : List Token) :
    parts (elements f size shape (t :: ts)) = .ok ([], ts) := by
  rw [elements, ht]
  simp only [if_true]
  rfl

theorem parts_elements_cons {f : Nat → (ts : List Token) → Except Fault (Taken Datum ts)}
    {shape : Bracket} (ht : ∀ closing, t.lexeme ≠ .closing closing) (ts : List Token) :
    parts (elements f size shape (t :: ts))
      = (parts (f t.offset (t :: ts))).bind fun p =>
          (parts (elements f size shape p.2)).map fun q => (p.1 :: q.1, q.2) := by
  rw [elements]
  split
  · next closing hclosing => exact absurd hclosing (ht closing)
  · cases f t.offset (t :: ts) with
    | error fault => rfl
    | ok first =>
      simp only [parts, Except.map, Except.bind]
      cases elements f size shape first.rest <;> rfl

end Steps

/-! ### Whole data -/

/-- The tokens with these lexemes are read as a datum, unless one of them is a fault. -/
def Comes (literals : Literals) (size levels : Nat) (ls : List Lexeme) (d : Datum) : Prop :=
  ∀ (ts rest : List Token) (offset : Nat), ts.map Token.lexeme = ls →
    parts (datum literals size levels offset (ts ++ rest))
      = after (ts.findSome? literals.fault?) (.ok (d, rest))

end Descent

open Descent

variable {A : List Char → Datum → Prop}

/-- No datum starts with a closing bracket. -/
theorem Forms.exists_cons {depth : Nat} {ls : List Lexeme} {d : Datum} (h : Forms A depth ls d) :
    ∃ l more, ls = l :: more ∧ ∀ shape, l ≠ .closing shape := by
  cases h <;> exact ⟨_, _, rfl, fun _ => Lexeme.noConfusion⟩

namespace Descent

/-- Only atoms are faults by themselves. -/
theorem Literals.findSome?_cons (literals : Literals) {t : Token}
    (ht : ∀ text, t.lexeme ≠ .atom text) (ts : List Token) :
    (t :: ts).findSome? literals.fault? = ts.findSome? literals.fault? := by
  cases literals with
  | checked => exact findSome?_oversized?_cons ht ts
  | unchecked => rfl

variable {literals : Literals} {size levels : Nat}

/-- Some elements of a list, before whatever comes next in it. -/
theorem parts_elements_append {shape : Bracket} {items : List (List Lexeme × Datum)}
    (hcons : ∀ q ∈ items, ∃ l more, q.1 = l :: more ∧ ∀ closing, l ≠ .closing closing)
    (h : ∀ q ∈ items, Comes literals size levels q.1 q.2) (ts rest : List Token)
    (hts : ts.map Token.lexeme = (items.map (·.1)).flatten) :
    parts (elements (datum literals size levels) size shape (ts ++ rest))
      = after (ts.findSome? literals.fault?)
          ((parts (elements (datum literals size levels) size shape rest)).map
            fun q => (items.map (·.2) ++ q.1, q.2)) := by
  induction items generalizing ts with
  | nil =>
    obtain rfl : ts = [] := by simpa using hts
    simp only [List.nil_append, List.findSome?_nil, List.map_nil, after, Option.elim_none]
    cases parts (elements (datum literals size levels) size shape rest) <;> rfl
  | cons q qs ih =>
    -- the tokens of the first element, then those of the others
    rw [List.map_cons, List.flatten_cons] at hts
    obtain ⟨ts₁, ts₂, rfl, h₁, h₂⟩ := List.map_eq_append_iff.1 hts
    obtain ⟨l, more, hq, hl⟩ := hcons q List.mem_cons_self
    obtain ⟨t, ts, rfl, rfl, -⟩ := List.map_eq_cons_iff.1 (h₁.trans hq)
    have hfirst := h q List.mem_cons_self (t :: ts) (ts₂ ++ rest) t.offset h₁
    have hothers := ih (fun r hr => hcons r (List.mem_cons_of_mem q hr))
      (fun r hr => h r (List.mem_cons_of_mem q hr)) ts₂ h₂
    rw [List.append_assoc, List.cons_append, parts_elements_cons hl, ← List.cons_append, hfirst,
      List.findSome?_append, after_or]
    cases (t :: ts).findSome? literals.fault? with
    | some fault => rfl
    | none =>
      simp only [after, Option.elim_none, Except.bind] at hothers ⊢
      rw [hothers]
      cases ts₂.findSome? literals.fault? with
      | some fault => rfl
      | none =>
        simp only [Option.elim_none]
        cases parts (elements (datum literals size levels) size shape rest) <;> rfl

end Descent

/-- The lexemes of a datum are read as this datum. -/
theorem Forms.comes (hA : ∀ text d, A text d → Datum.ofAtom text = d) (literals : Literals)
    (size : Nat) {depth levels : Nat} (hlevels : depth + levels = maxNesting) {ls : List Lexeme}
    {d : Datum} (h : Forms A depth ls d) : Comes literals size levels ls d := by
  induction h generalizing levels with
  | @atom depth text d hdepth hd =>
    obtain ⟨levels, rfl⟩ := Nat.exists_eq_add_one_of_ne_zero (n := levels) (by omega)
    intro ts rest offset hts
    obtain ⟨t, rfl, ht⟩ : ∃ t, ts = [t] ∧ t.lexeme = .atom text := by
      simpa [List.map_eq_singleton_iff] using hts
    rw [List.singleton_append, parts_datum_atom ht, hA text d hd, List.findSome?_singleton]
  | @quote depth ls d hdepth hls ih =>
    obtain ⟨levels, rfl⟩ := Nat.exists_eq_add_one_of_ne_zero (n := levels) (by omega)
    intro ts rest offset hts
    obtain ⟨t, ts, rfl, ht, hts⟩ := List.map_eq_cons_iff.1 hts
    rw [List.cons_append, parts_datum_quote ht, ih (by omega) ts rest t.stop hts, after_map,
      literals.findSome?_cons (by simp [ht])]
    rfl
  | @list depth shape items hdepth hitems ih =>
    obtain ⟨levels, rfl⟩ := Nat.exists_eq_add_one_of_ne_zero (n := levels) (by omega)
    intro ts rest offset hts
    obtain ⟨t, ts, rfl, ht, hts⟩ := List.map_eq_cons_iff.1 hts
    obtain ⟨middle, final, rfl, hmiddle, hfinal⟩ := List.map_eq_append_iff.1 hts
    obtain ⟨t', rfl, ht'⟩ : ∃ t', final = [t'] ∧ t'.lexeme = .closing shape := by
      simpa [List.map_eq_singleton_iff] using hfinal
    -- the opening bracket, the elements, the closing bracket
    rw [List.cons_append, parts_datum_opening ht, List.append_assoc,
      parts_elements_append (fun q hq => (hitems q hq).exists_cons)
        (fun q hq => ih q hq (by omega)) middle _ hmiddle,
      List.singleton_append, parts_elements_closing ht', after_map,
      literals.findSome?_cons (by simp [ht]), List.findSome?_append,
      literals.findSome?_cons (by simp [ht']), List.findSome?_nil, Option.or_none]
    simp [Except.map]

/-! ### Data that do not end -/

namespace Descent

/-- The fault that comes back from what is due under the open lists and quote marks: an
element or the end of the innermost list, and else a datum. -/
def Fails (literals : Literals) (size : Nat) (opened : List Lexeme) (ts : List Token)
    (fault : Fault) : Prop :=
  match opened with
  | .opening shape :: outer =>
      parts (elements (datum literals size (maxNesting - (outer.length + 1))) size shape ts)
        = .error fault
  | _ => ∀ offset, parts (datum literals size (maxNesting - opened.length) offset ts)
      = .error fault

variable {literals : Literals} {size : Nat} {opened : List Lexeme} {ts : List Token} {t : Token}
  {fault : Fault}

/-- Whatever is open, a datum may be due. -/
theorem fails_of_datum (ht : ∀ shape, t.lexeme ≠ .closing shape)
    (h : ∀ offset, parts (datum literals size (maxNesting - opened.length) offset (t :: ts))
      = .error fault) : Fails literals size opened (t :: ts) fault := by
  unfold Fails
  split
  · rw [parts_elements_cons ht, ← List.length_cons, h]
    rfl
  · exact h

end Descent

/-- There is room for a datum, unless the elements of a list are due. -/
theorem Begun.length_lt {ls opened : List Lexeme} (h : Begun A ls opened)
    (htop : ∀ shape, opened.head? ≠ some (.opening shape)) : opened.length < maxNesting := by
  cases h with
  | nil => decide
  | quote hdepth _ => exact hdepth
  | list => exact absurd rfl (htop _)

/-- Where a datum has begun, the fault that is met next is that of the whole datum, unless
a numeral stopped the reader before. -/
theorem Begun.fails (hA : ∀ text d, A text d → Datum.ofAtom text = d) {literals : Literals}
    {size : Nat} {ls opened : List Lexeme} (h : Begun A ls opened) {ts more : List Token}
    (hts : ts.map Token.lexeme = ls) {fault : Fault}
    (hmore : Fails literals size opened more fault) (offset : Nat) :
    parts (datum literals size maxNesting offset (ts ++ more))
      = after (ts.findSome? literals.fault?) (.error fault) := by
  -- from the innermost list or mark outwards: what fails in there fails one level up
  induction h generalizing ts more fault with
  | nil =>
    obtain rfl : ts = [] := by simpa using hts
    exact hmore offset
  | @quote ls opened hdepth _ ih =>
    obtain ⟨before, final, rfl, hbefore, hfinal⟩ := List.map_eq_append_iff.1 hts
    obtain ⟨t, rfl, ht⟩ : ∃ t, final = [t] ∧ t.lexeme = .quote := by
      simpa [List.map_eq_singleton_iff] using hfinal
    have hlevels : maxNesting - opened.length = maxNesting - (opened.length + 1) + 1 := by omega
    have hquote : Fails literals size opened (t :: more) fault := by
      have hquoted : parts (datum literals size (maxNesting - (opened.length + 1)) t.stop more)
          = .error fault := hmore t.stop
      refine fails_of_datum (by simp [ht]) fun offset => ?_
      rw [hlevels, parts_datum_quote ht, hquoted]
      rfl
    rw [List.append_assoc, List.singleton_append, ih hbefore hquote, List.findSome?_append,
      literals.findSome?_cons (by simp [ht]), List.findSome?_nil, Option.or_none]
  | @list ls opened shape items hdepth _ hitems ih =>
    obtain ⟨before, inner, rfl, hbefore, hinner⟩ := List.map_eq_append_iff.1 hts
    obtain ⟨t, inner, rfl, ht, hinner⟩ := List.map_eq_cons_iff.1 hinner
    have hlevels : maxNesting - opened.length = maxNesting - (opened.length + 1) + 1 := by omega
    -- inside the list its elements are read, and then the fault is met
    have hlist : ∀ offset, parts (datum literals size (maxNesting - opened.length) offset
        (t :: (inner ++ more))) = after (inner.findSome? literals.fault?) (.error fault) := by
      intro offset
      rw [hlevels, parts_datum_opening ht,
        parts_elements_append (fun q hq => (hitems q hq).exists_cons)
          (fun q hq => (hitems q hq).comes hA literals size (by omega)) inner _ hinner,
        hmore, after_map]
      rfl
    rw [after_error] at hlist
    rw [List.append_assoc, List.cons_append, List.findSome?_append,
      literals.findSome?_cons (by simp [ht]), after_or, after_error]
    exact ih hbefore (fails_of_datum (by simp [ht]) hlist)

/-- The text ends where a datum has begun. -/
theorem Begun.fails_nil {ls opened : List Lexeme} (h : Begun A ls opened) (literals : Literals)
    (size : Nat) : Fails literals size opened [] ⟨.endOfText, size⟩ := by
  unfold Fails
  split
  · rw [elements]
    rfl
  · next hother =>
    intro offset
    have hlt := h.length_lt fun shape htop => by
      obtain ⟨outer, rfl⟩ := List.head?_eq_some_iff.1 htop
      exact hother shape outer rfl
    obtain ⟨levels, hlevels⟩ :=
      Nat.exists_eq_add_one_of_ne_zero (n := maxNesting - opened.length) (by omega)
    rw [hlevels, datum]
    rfl

theorem Refuses.fails {ls opened : List Lexeme} (h : Begun A ls opened) (literals : Literals)
    (size : Nat) {t : Token} {fault : Fault} (hrefuses : Refuses opened t fault)
    (rest : List Token) : Fails literals size opened (t :: rest) fault := by
  have hsucc (hlt : opened.length < maxNesting) :
      ∃ levels, maxNesting - opened.length = levels + 1 :=
    Nat.exists_eq_add_one_of_ne_zero (by omega)
  cases hrefuses with
  | @unmatched shape ht htop =>
    unfold Fails
    split
    · next opening outer =>
      have hne : shape ≠ opening := fun heq => htop (heq ▸ rfl)
      rw [elements, ht]
      simp only [if_neg hne]
      rfl
    · next hother =>
      intro offset
      obtain ⟨levels, hlevels⟩ := hsucc (h.length_lt fun shape htop => by
        obtain ⟨outer, rfl⟩ := List.head?_eq_some_iff.1 htop
        exact hother shape outer rfl)
      rw [hlevels, datum, ht]
      rfl
  | @stray c ht hdepth =>
    obtain ⟨levels, hlevels⟩ := hsucc hdepth
    refine fails_of_datum (by simp [ht]) fun offset => ?_
    rw [hlevels, datum, ht]
    rfl
  | deep hother hdepth =>
    cases h with
    | nil => exact absurd hdepth (by decide)
    | quote hlt _ => exact absurd hlt (Nat.not_lt.2 hdepth)
    | @list _ outer shape _ _ _ _ =>
      have hlevels : maxNesting - (outer.length + 1) = 0 := Nat.sub_eq_zero_of_le hdepth
      simp only [Fails, hlevels, parts_elements_cons hother, datum]
      rfl
  | quote ht hdepth =>
    have hlevels : maxNesting - opened.length = 0 + 1 := by omega
    refine fails_of_datum (by simp [ht]) fun offset => ?_
    rw [hlevels, parts_datum_quote ht, datum, Token.stop, ht]
    rfl

/-! ### One datum after the other -/

namespace Descent

theorem findings_cons (size : Nat) (t : Token) (ts : List Token) :
    findings size (t :: ts)
      = match parts (datum .checked size maxNesting t.offset (t :: ts)) with
        | .ok (d, rest) => (t.offset, .ok d) :: findings size rest
        | .error fault =>
            (t.offset, .error fault) ::
              match fault.obstacle,
                parts (datum .unchecked size maxNesting t.offset (t :: ts)) with
              | .oversized _, .ok (_, rest) => findings size rest
              | _, _ => [] := by
  rw [findings]
  cases datum .checked size maxNesting t.offset (t :: ts) with
  | ok taken => rfl
  | error fault =>
    obtain ⟨obstacle, offset⟩ := fault
    dsimp only
    cases datum .unchecked size maxNesting t.offset (t :: ts) <;> cases obstacle <;> rfl

/-- The first datum starts at the first token. -/
theorem exists_findings_cons (size : Nat) (t : Token) (ts : List Token) :
    ∃ result others, findings size (t :: ts) = (t.offset, result) :: others := by
  rw [findings_cons]
  split <;> exact ⟨_, _, rfl⟩

end Descent

theorem Item.result_eq_after (i : Item) : i.result = after i.oversized i.body := by
  unfold Item.result
  cases i.oversized <;> rfl

theorem exists_of_findSome?_oversized? {ts : List Token} {fault : Fault}
    (h : ts.findSome? Token.oversized? = some fault) :
    ∃ numeral offset, fault = ⟨.oversized numeral, offset⟩ := by
  obtain ⟨t, -, ht⟩ := List.exists_of_findSome?_eq_some h
  unfold Token.oversized? at ht
  split at ht
  · next text _ =>
    split at ht
    · exact ⟨text, t.offset, (Option.some.inj ht).symm⟩
    · cases ht
  · cases ht

/-- Without checks no token is a fault by itself. -/
theorem findSome?_unchecked (ts : List Token) :
    ts.findSome? Literals.unchecked.fault? = none :=
  List.findSome?_eq_none_iff.2 fun _ _ => rfl

/-- The reader that goes down finds the pieces of a text. -/
theorem Pieces.findings_eq (hA : ∀ text d, A text d → Datum.ofAtom text = d) {size : Nat}
    {ts : List Token} {pieces : List Piece} (h : Pieces A size ts pieces) :
    findings size ts = pieces.map fun piece => (piece.start.offset, piece.item.result) := by
  -- a datum that does not end: whether or not literals are checked, the reading stops
  have hstops {ts more : List Token} {first : Token} {opened : List Lexeme} {fault : Fault}
      (hbegun : Begun A (ts.map Token.lexeme) opened)
      (hfails : ∀ literals, Fails literals size opened more fault)
      (hfirst : (ts ++ more).head? = some first) : findings size (ts ++ more)
        = [(first.offset, after (ts.findSome? Token.oversized?) (.error fault))] := by
    have hread : parts (Descent.datum .checked size maxNesting first.offset (ts ++ more))
        = after (ts.findSome? Token.oversized?) (.error fault) :=
      hbegun.fails hA rfl (hfails .checked) first.offset
    have hagain := hbegun.fails hA rfl (hfails .unchecked) first.offset
    obtain ⟨rest, hrest⟩ := List.head?_eq_some_iff.1 hfirst
    rw [after_error, hrest] at hread hagain
    rw [after_error, hrest, findings_cons, hread, hagain]
    simp
  induction h with
  | nil => rw [findings, List.map_nil]
  | @datum ts rest first last d pieces hd hfirst _ _ ih =>
    obtain ⟨more, rfl⟩ := List.head?_eq_some_iff.1 hfirst
    have hread : parts (Descent.datum .checked size maxNesting first.offset
        (first :: (more ++ rest)))
          = after ((first :: more).findSome? Token.oversized?) (.ok (d, rest)) :=
      hd.comes hA .checked size (Nat.zero_add _) (first :: more) rest first.offset rfl
    have hagain : parts (Descent.datum .unchecked size maxNesting first.offset
        (first :: (more ++ rest)))
          = after ((first :: more).findSome? Literals.unchecked.fault?) (.ok (d, rest)) :=
      hd.comes hA .unchecked size (Nat.zero_add _) (first :: more) rest first.offset rfl
    rw [findSome?_unchecked] at hagain
    rw [List.map_cons, Item.result_eq_after, Piece.item, ← ih]
    rw [List.cons_append, findings_cons, hread]
    cases hover : (first :: more).findSome? Token.oversized? with
    | none => rfl
    | some fault =>
      obtain ⟨numeral, offset, rfl⟩ := exists_of_findSome?_oversized? hover
      rw [hagain]
      rfl
  | @unfinished ts first opened hbegun hfirst =>
    have hend := hstops hbegun (hbegun.fails_nil · size) (by rwa [List.append_nil])
    rw [List.append_nil] at hend
    rw [List.map_singleton, Item.result_eq_after]
    exact hend
  | @refused ts rest first t opened fault hbegun hrefuses hfirst =>
    rw [List.map_singleton, Item.result_eq_after]
    refine hstops hbegun (fun literals => hrefuses.fails hbegun literals size rest) ?_
    rw [List.append_cons, List.head?_append, hfirst, Option.some_or]

theorem findings_ofText (text : List Char) : findings text.length (Token.ofText text)
    = (Item.ofText text).map fun i => (i.start.offset, i.result) := by
  obtain ⟨pieces, hpieces⟩ := exists_pieces exists_readAs text.length (Token.ofText text)
  rw [hpieces.findings_eq fun _ _ h => h, hpieces.items_eq fun _ _ h => h, List.map_map]
  rfl

/-! ### The two readers -/

namespace Descent

/-- The line of an offset, when the lines before were counted. -/
theorem Counter.goTo_eq {c : Counter} {text : List Char} {offset : Nat}
    (hline : c.line = 1 + (text.take c.offset).count '\n') (h : c.offset ≤ offset) :
    c.goTo text offset = ⟨1 + (text.take offset).count '\n', offset⟩ := by
  have hcut : text.take offset = text.take c.offset ++ (text.take offset).drop c.offset := by
    conv_lhs => rw [← List.take_append_drop c.offset (text.take offset), List.take_take,
      Nat.min_eq_left h]
  rw [goTo, if_pos h, hline, Nat.add_assoc, ← List.count_append, ← hcut]

end Descent

/-- The entry of an item. -/
def Item.entry (source : String) (text : List Char) (i : Item) : Entry :=
  ⟨⟨source, i.start.line⟩, i.result.mapError fun fault =>
    ((fault.since i.start.offset).report (text.drop i.start.offset)).locate ⟨source, i.start.line⟩⟩

theorem entries_map (source : String) {text : List Char} {items : List Item} {c : Counter}
    (hlines : ∀ i ∈ items, i.start.line = 1 + (text.take i.start.offset).count '\n')
    (hforward : (c.offset :: items.map fun i => i.start.offset).Pairwise (· ≤ ·))
    (hline : c.line = 1 + (text.take c.offset).count '\n') :
    entries source text c (items.map fun i => (i.start.offset, i.result))
      = items.map (Item.entry source text) := by
  induction items generalizing c with
  | nil => rfl
  | cons i items ih =>
    obtain ⟨hstart, hforward⟩ := List.pairwise_cons.1 hforward
    have hcount : c.goTo text i.start.offset = ⟨i.start.line, i.start.offset⟩ := by
      rw [Counter.goTo_eq hline (hstart _ List.mem_cons_self), hlines i List.mem_cons_self]
    have hrest := @ih ⟨i.start.line, i.start.offset⟩
      (fun j hj => hlines j (List.mem_cons_of_mem i hj)) hforward (hlines i List.mem_cons_self)
    rw [List.map_cons, entries, hcount, hrest, List.map_cons, Item.entry]

theorem Stretch.offset_eq {piece : List Char} {item : Item} (h : Stretch piece item)
    (x : List Char) : (item.behind x).start.offset = x.length := by
  rw [Item.behind, h.start]
  rfl

/-- Items that lie side by side start one behind the other. -/
theorem Tiles.pairwise_offset {before rest unread : List Char} {items : List Item}
    (h : Tiles before rest items unread) :
    (before.length :: items.map fun i => i.start.offset).Pairwise (· ≤ ·) := by
  induction h with
  | done => exact List.pairwise_singleton _ _
  | @datum before gap piece _ _ _ _ _ _ hstretch _ _ _ ih =>
    obtain ⟨hbehind, hforward⟩ := List.pairwise_cons.1 ih
    have hle : ∀ n, (before ++ gap ++ piece).length ≤ n →
        before.length ≤ n ∧ (before ++ gap).length ≤ n := by
      intro n hn
      simp only [List.length_append] at hn ⊢
      omega
    rw [List.map_cons, hstretch.offset_eq]
    refine .cons (List.forall_mem_cons.2 ⟨by simp, fun n hn => (hle n (hbehind n hn)).1⟩) ?_
    exact .cons (fun n hn => (hle n (hbehind n hn)).2) hforward
  | fault _ hstretch =>
    rw [List.map_singleton, hstretch.offset_eq]
    simp

/-- **Reading on and going down come to the same.**  The entries of a source are those of
the reader that goes down into the data, reads a datum again after a numeral out of range
and counts the lines on from one datum to the next. -/
theorem readAll_eq_entries (source input : String) : readAll source input
    = entries source input.toList ⟨1, 0⟩
        (findings input.toList.length (Token.ofText input.toList)) := by
  obtain ⟨unread, htiles⟩ := exists_tiles [] input.toList
  rw [List.map_congr_left fun i _ => i.behind_nil, List.map_id'] at htiles
  rw [findings_ofText]
  exact (entries_map source (fun _ hi => htiles.line_eq hi) htiles.pairwise_offset rfl).symm

namespace Descent

/-- Where a datum starts matters only where none may. -/
theorem datum_maxNesting (literals : Literals) (size offset offset' : Nat) (ts : List Token) :
    datum literals size maxNesting offset ts = datum literals size maxNesting offset' ts := by
  cases ts <;> rfl

end Descent

/-- **One datum alone.**  A text that has to hold exactly one datum is read once, with
literals checked, and no token may be left. -/
theorem readOne_eq_single (input : String) : readOne input = single input.toList := by
  have hitems := findings_ofText input.toList
  unfold readOne single
  cases hts : Token.ofText input.toList with
  | nil =>
    rw [hts, findings] at hitems
    simp only [List.map_eq_nil_iff.1 hitems.symm]
    rfl
  | cons t ts =>
    rw [hts, findings_cons] at hitems
    rw [datum_maxNesting .checked input.toList.length 0 t.offset]
    cases hd : parts (datum .checked input.toList.length maxNesting t.offset (t :: ts)) with
    | error fault =>
      rw [hd] at hitems
      obtain ⟨i, others, hall, hi, -⟩ := List.map_eq_cons_iff.1 hitems.symm
      simp only [hall, (Prod.mk.inj hi).2]
    | ok p =>
      obtain ⟨d, rest⟩ := p
      rw [hd] at hitems
      obtain ⟨i, others, hall, hi, hothers⟩ := List.map_eq_cons_iff.1 hitems.symm
      simp only [hall, (Prod.mk.inj hi).2]
      -- what is left are the items of the tokens that are left
      cases rest with
      | nil =>
        rw [findings] at hothers
        simp only [List.map_eq_nil_iff.1 hothers]
      | cons next more =>
        obtain ⟨result, later, hlater⟩ := exists_findings_cons input.toList.length next more
        rw [hlater] at hothers
        obtain ⟨j, others, rfl, hj, -⟩ := List.map_eq_cons_iff.1 hothers
        simp only [(Prod.mk.inj hj).1]

end Primer
