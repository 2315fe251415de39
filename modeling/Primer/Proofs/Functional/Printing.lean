/-
Primer/Proofs/Functional/Printing.lean

The printed form of data.

A chain of pairs is printed as one list, whose last item stands after a dot if the chain
does not end in the empty list.  All the same, values made of numbers, truth values, symbols
and pairs can be told from their texts, as long as the names of the symbols are such that
they can be read, and none is the dot itself (`Printable.text_inj`).

The text of such a value spells the lexemes of the value, and these are read off from the
left.  What stands first tells a list from an atom, and inside a list it tells its end, a
dotted end and a further item apart; so the lexemes of a value can be split off the
front of whatever follows (`Printable.split`).
-/
import Primer.Proofs.Functional.Equality
import Primer.Proofs.Symbols

namespace Primer.Functional

namespace Value

/-! ### Data -/

/-- Values that are made of data only, where symbols have names as `N` says. -/
inductive IsData (N : String → Prop) : Value → Prop
  | number (n : Number) : IsData N (.number n)
  | bool (b : Bool) : IsData N (.bool b)
  | symbol {name : String} : N name → IsData N (.symbol name)
  | nil : IsData N .nil
  | pair {a d : Value} : IsData N a → IsData N d → IsData N (.pair a d)

/-- A datum is the same as itself and nothing else. -/
theorem IsData.equal_iff {N : String → Prop} {v w : Value} (h : v.IsData N) :
    v.equal w = true ↔ v = w := by
  rw [equal_iff_same]
  constructor
  · intro hsame
    induction h generalizing w with
    | pair _ _ iha ihd =>
      cases hsame with
      | pair ha hd => rw [iha ha, ihd hd]
    | number | bool | symbol | nil =>
      cases hsame
      rfl
  · rintro rfl
    induction h with
    | number n => exact .number n
    | bool b => exact .bool b
    | symbol _ => exact .symbol _
    | nil => exact .nil
    | pair _ _ iha ihd => exact .pair iha ihd

/-! ### Lexemes of a value -/

mutual

/-- The lexemes of the printed form. -/
def lexemes : Value → List Lexeme
  | nil => [.opening .round, .closing .round]
  | pair a d => .opening .round :: (lexemes a ++ restLexemes d)
  | v => [.atom v.atomText.toList]

/-- The lexemes of what follows an item of a list. -/
def restLexemes : Value → List Lexeme
  | nil => [.closing .round]
  | pair a d => lexemes a ++ restLexemes d
  | v => [.atom ['.'], .atom v.atomText.toList, .closing .round]

end

/-- A value that is printed as an atom, other than the dot, from which it can be told. -/
structure IsAtomic (v : Value) : Prop where
  lexemes_eq : v.lexemes = [.atom v.atomText.toList]
  restLexemes_eq : v.restLexemes = [.atom ['.'], .atom v.atomText.toList, .closing .round]
  text_eq : ∀ before, writeAfter before v = before ++ v.atomText
  restText_eq : ∀ before, writeRest before v = before ++ " . " ++ v.atomText ++ ")"
  isAtom : IsAtom v.atomText.toList
  undotted : v.atomText.toList ≠ ['.']
  read : ofDatum (.ofAtom v.atomText.toList) = v

/-- Values that can be told from their texts. -/
inductive Printable : Value → Prop
  | atom {v : Value} : IsAtomic v → Printable v
  | nil : Printable .nil
  | pair {a d : Value} : Printable a → Printable d → Printable (.pair a d)

theorem isAtomic_number (n : Number) : IsAtomic (.number n) where
  lexemes_eq := rfl
  restLexemes_eq := rfl
  text_eq _ := rfl
  restText_eq _ := rfl
  isAtom := n.isAtom_text
  undotted := by
    intro h
    have hnumeral := n.numeral?_text
    rw [show n.text.toList = ['.'] from h] at hnumeral
    cases hnumeral
  read := by rw [show (Value.number n).atomText = n.text from rfl, n.ofAtom_text, ofDatum]

theorem isAtomic_bool (b : Bool) : IsAtomic (.bool b) := by
  cases b <;> exact ⟨rfl, rfl, fun _ => rfl, fun _ => rfl, by decide, by decide, rfl⟩

theorem isAtomic_symbol {name : String} (h : IsSymbol name) (hdot : name ≠ ".") :
    IsAtomic (.symbol name) where
  lexemes_eq := rfl
  restLexemes_eq := rfl
  text_eq _ := rfl
  restText_eq _ := rfl
  isAtom := h.atom
  undotted heq := hdot (String.toList_injective heq)
  read := by rw [show (Value.symbol name).atomText = name from rfl, h.symbol, ofDatum]

theorem IsData.printable {N : String → Prop} (hN : ∀ name, N name → IsSymbol name ∧ name ≠ ".")
    {v : Value} (h : v.IsData N) : v.Printable := by
  induction h with
  | number n => exact .atom (isAtomic_number n)
  | bool b => exact .atom (isAtomic_bool b)
  | symbol hname => exact .atom (isAtomic_symbol (hN _ hname).1 (hN _ hname).2)
  | nil => exact .nil
  | pair _ _ iha ihd => exact .pair iha ihd

/-! ### Texts spell their lexemes -/

namespace Printable

variable {v w : Value}

/-- The printed form, and what is written after the first items of a list. -/
theorem spells (h : v.Printable) :
    (∃ u, (∀ before, writeAfter before v = before ++ u) ∧ Spells u.toList v.lexemes) ∧
      ∃ u, (∀ before, writeRest before v = before ++ u) ∧
        ∀ {items ls}, Spells items ls → Spells (items ++ u.toList) (ls ++ v.restLexemes) := by
  have hclose : ∀ {items ls}, Spells items ls →
      Spells (items ++ [')']) (ls ++ [.closing .round]) := fun hitems =>
    hitems.append (l := some (.closing .round)) (by decide) (fun _ => rfl) .nil
  induction h with
  | @atom v hv =>
    refine ⟨⟨v.atomText, hv.text_eq, hv.lexemes_eq ▸ .atom hv.isAtom⟩,
      " . " ++ v.atomText ++ ")", fun before => ?_, fun {items ls} hitems => ?_⟩
    · rw [hv.restText_eq, String.append_assoc, String.append_assoc, String.append_assoc]
    · have hdot := hitems.space (.atom (u := ['.']) (by decide))
      have hall := hclose (hdot.space (.atom hv.isAtom))
      rw [hv.restLexemes_eq]
      simpa [String.toList_append] using hall
  | nil =>
    refine ⟨⟨"()", fun _ => rfl, ?_⟩, ")", fun _ => rfl, hclose⟩
    exact Spells.brackets .nil
  | @pair a d _ _ iha ihd =>
    obtain ⟨⟨u, hu, hspells⟩, -⟩ := iha
    obtain ⟨-, u', hu', hrest⟩ := ihd
    refine ⟨⟨"(" ++ u ++ u', fun before => ?_, ?_⟩, " " ++ u ++ u', fun before => ?_,
      fun {items ls} hitems => ?_⟩
    · rw [writeAfter, hu, hu']
      simp only [String.append_assoc]
    · have hopen := hrest (hspells.cons (c := '(') (l := some (.opening .round)) fun _ => rfl)
      simpa [String.toList_append, lexemes] using hopen
    · rw [writeRest, hu, hu']
      simp only [String.append_assoc]
    · have hitem := hrest (hitems.space hspells)
      simpa [String.toList_append, restLexemes] using hitem

theorem lexemes_text (h : v.Printable) : Primer.lexemes v.text.toList = v.lexemes := by
  obtain ⟨⟨u, hu, hspells⟩, -⟩ := h.spells
  have htext : v.text = u := by rw [text, hu, String.empty_append]
  rw [htext]
  exact hspells.lexemes_eq

/-! ### Values are told from their lexemes -/

/-- An item of a list begins neither like its end nor like a dotted end. -/
theorem head_lexemes (h : v.Printable) :
    ∃ l ls, v.lexemes = l :: ls ∧ l ≠ .closing .round ∧ l ≠ .atom ['.'] := by
  cases h with
  | atom hv =>
    exact ⟨_, _, hv.lexemes_eq, by simp, fun h => hv.undotted (Lexeme.atom.inj h)⟩
  | nil => exact ⟨_, _, rfl, by simp, by simp⟩
  | pair => exact ⟨_, _, rfl, by simp, by simp⟩

theorem atom_eq (hv : v.IsAtomic) (hw : w.IsAtomic)
    (h : v.atomText.toList = w.atomText.toList) : v = w := by
  rw [← hv.read, h, hw.read]

/-- The lexemes of a value can be split off the front of any others, and so can the lexemes
of the rest of a list. -/
theorem split (hv : v.Printable) (hw : w.Printable) {t t' : List Lexeme} :
    (v.lexemes ++ t = w.lexemes ++ t' → v = w ∧ t = t') ∧
      (v.restLexemes ++ t = w.restLexemes ++ t' → v = w ∧ t = t') := by
  induction hv generalizing w t t' with
  | atom hv =>
    rw [hv.lexemes_eq, hv.restLexemes_eq]
    cases hw with
    | atom hw =>
      rw [hw.lexemes_eq, hw.restLexemes_eq]
      constructor
      · intro h
        obtain ⟨hhead, htail⟩ := List.cons.inj h
        exact ⟨atom_eq hv hw (Lexeme.atom.inj hhead), htail⟩
      · intro h
        obtain ⟨-, hrest⟩ := List.cons.inj h
        obtain ⟨hhead, hrest⟩ := List.cons.inj hrest
        exact ⟨atom_eq hv hw (Lexeme.atom.inj hhead), (List.cons.inj hrest).2⟩
    | nil => simp [lexemes, restLexemes]
    | pair ha _ =>
      obtain ⟨l, ls, hl, -, hdot⟩ := ha.head_lexemes
      simp [lexemes, restLexemes, hl, hdot.symm]
  | nil =>
    cases hw with
    | atom hw =>
      rw [hw.lexemes_eq, hw.restLexemes_eq]
      simp [lexemes, restLexemes]
    | nil => simp [lexemes, restLexemes]
    | pair ha _ =>
      obtain ⟨l, ls, hl, hclose, -⟩ := ha.head_lexemes
      simp [lexemes, restLexemes, hl, hclose.symm]
  | @pair a d ha _ iha ihd =>
    obtain ⟨l, ls, hl, hclose, hdot⟩ := ha.head_lexemes
    cases hw with
    | atom hw =>
      rw [hw.lexemes_eq, hw.restLexemes_eq]
      simp [lexemes, restLexemes, hl, hdot]
    | nil => simp [lexemes, restLexemes, hl, hclose]
    | @pair a' d' ha' hd' =>
      have hitems : lexemes a ++ restLexemes d ++ t = lexemes a' ++ restLexemes d' ++ t' →
          Value.pair a d = .pair a' d' ∧ t = t' := by
        intro h
        rw [List.append_assoc, List.append_assoc] at h
        obtain ⟨rfl, hrest⟩ := (iha ha').1 h
        obtain ⟨rfl, htail⟩ := (ihd hd').2 hrest
        exact ⟨rfl, htail⟩
      refine ⟨fun h => hitems ?_, hitems⟩
      exact (List.cons.inj h).2

/-- **Values that print the same are the same.** -/
theorem text_inj (hv : v.Printable) (hw : w.Printable) : v.text = w.text ↔ v = w := by
  refine ⟨fun h => ?_, congrArg text⟩
  have hlexemes : v.lexemes ++ [] = w.lexemes ++ [] := by
    rw [← hv.lexemes_text, ← hw.lexemes_text, h]
  exact ((hv.split hw).1 hlexemes).1

end Printable

end Value

end Primer.Functional
