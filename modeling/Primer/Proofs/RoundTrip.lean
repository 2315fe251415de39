/-
Primer/Proofs/RoundTrip.lean

Printing an expression and reading it back.

The printed form of an expression that was read from a text is a text again,
and what it denotes is the same expression, in both languages
(`read_text_of_read`).  It need not be the same datum: a quoted number is
printed without its quotation.

Each form is printed as texts in round brackets (`bracketed`), so the proof
goes along the rules of `Denotes`: the printed parts are `Written` one level
further inside, and so are the keyword and the names.  A quote mark takes up
one level, as the brackets and the keyword that it stands for do, so nothing
gets deeper by being printed.

Assignments, conditionals, loops and blocks are printed alike in both languages and
are denoted by the same data, so they are dealt with once (`CommonForms`).
-/
import Primer.Proofs.Forms
import Primer.Proofs.Spelling

namespace Primer

theorem Datum.Fits.of_mem {depth : Nat} {ds : List Datum} (h : Fits depth (.list ds)) {d : Datum}
    (hd : d ∈ ds) : Fits (depth + 1) d := by
  cases h with
  | list _ hds => exact hds d hd

theorem Datum.Fits.written_symbol {depth : Nat} {ds : List Datum} (h : Fits depth (.list ds))
    {name : String} (hname : .symbol name ∈ ds) : Written (depth + 1) name (.symbol name) :=
  (h.of_mem hname).written

/-- Data for each of some expressions. -/
theorem exists_data {ε : Type} {R : Datum → ε → Prop} {parts : List (Datum × ε)}
    (h : ∀ p ∈ parts, ∃ d, R d p.2) :
    ∃ parts' : List (Datum × ε), parts'.map (·.2) = parts.map (·.2) ∧ ∀ p ∈ parts', R p.1 p.2 := by
  induction parts with
  | nil => exact ⟨[], rfl, by simp⟩
  | cons p ps ih =>
    obtain ⟨d, hd⟩ := h p List.mem_cons_self
    obtain ⟨ps', hsame, hps'⟩ := ih fun q hq => h q (List.mem_cons_of_mem p hq)
    refine ⟨(d, p.2) :: ps', by rw [List.map_cons, List.map_cons, hsame], ?_⟩
    intro q hq
    rcases List.mem_cons.1 hq with rfl | hq
    · exact hd
    · exact hps' q hq

theorem forall₂_written {ε : Type} {text : ε → String} {datum : Datum × ε → Datum} {depth : Nat}
    {parts : List (Datum × ε)} (h : ∀ p ∈ parts, Written depth (text p.2) (datum p)) :
    List.Forall₂ (Written depth) ((parts.map (·.2)).map text) (parts.map datum) := by
  rw [List.map_map, List.forall₂_map_left_iff, List.forall₂_map_right_iff, List.forall₂_same]
  exact h

/-! ### The forms that both languages have -/

/-- Expressions with assignments, conditionals, loops and blocks: how these are printed, and
what data denote them. -/
structure CommonForms (ε : Type) where
  text : ε → String
  textEach : List ε → String
  Denotes : Datum → ε → Prop
  set : String → ε → ε
  cond : ε → ε → ε → ε
  loop : ε → ε → ε
  block : List ε → ε
  textEach_nil : textEach [] = ""
  textEach_cons : ∀ e es, textEach (e :: es) = " " ++ text e ++ textEach es
  text_set : ∀ x e, text (set x e) = "(set " ++ x ++ " " ++ text e ++ ")"
  text_cond : ∀ test yes no,
    text (cond test yes no) = "(if " ++ text test ++ " " ++ text yes ++ " " ++ text no ++ ")"
  text_loop : ∀ test body, text (loop test body) = "(while " ++ text test ++ " " ++ text body ++ ")"
  text_block : ∀ parts, text (block parts) = "(begin" ++ textEach parts ++ ")"
  denotes_set : ∀ {x d e}, Denotes d e → Denotes (.list [.symbol "set", .symbol x, d]) (set x e)
  denotes_cond : ∀ {test yes no test' yes' no'},
    Denotes test test' → Denotes yes yes' → Denotes no no' →
      Denotes (.list [.symbol "if", test, yes, no]) (cond test' yes' no')
  denotes_loop : ∀ {test body test' body'}, Denotes test test' → Denotes body body' →
    Denotes (.list [.symbol "while", test, body]) (loop test' body')
  denotes_block : ∀ {parts : List (Datum × ε)}, (∀ p ∈ parts, Denotes p.1 p.2) →
    Denotes (.list (.symbol "begin" :: parts.map (·.1))) (block (parts.map (·.2)))

namespace CommonForms

variable {ε : Type} (F : CommonForms ε) {depth : Nat}

/-- A datum that the printed form of an expression is a text for and that denotes the
expression. -/
def Reprinted (depth : Nat) (d : Datum) (e : ε) : Prop := Written depth (F.text e) d ∧ F.Denotes d e

/-- Expressions that are printed one after the other, each with a space before it. -/
theorem append_textEach (u : String) (es : List ε) :
    u ++ F.textEach es = " ".intercalate (u :: es.map F.text) := by
  induction es generalizing u with
  | nil => rw [F.textEach_nil, String.append_empty, List.map_nil, String.intercalate_singleton]
  | cons e es ih =>
    rw [F.textEach_cons, List.map_cons, String.intercalate_cons_cons, ← ih]
    simp only [String.append_assoc]

theorem bracketed_textEach (u : String) (es : List ε) :
    "(" ++ u ++ F.textEach es ++ ")" = bracketed (u :: es.map F.text) := by
  rw [bracketed, ← append_textEach, ← String.append_assoc]

/-- Expressions after the head of a list can be printed and read again if each of them
can. -/
theorem exists_reprinted_each {head : Datum} {parts : List (Datum × ε)}
    (hd : (Datum.list (head :: parts.map (·.1))).Fits depth)
    (ih : ∀ p ∈ parts, ∀ {depth}, p.1.Fits depth → ∃ d, F.Reprinted depth d p.2) :
    ∃ parts' : List (Datum × ε), parts'.map (·.2) = parts.map (·.2) ∧
      (∀ p ∈ parts', F.Denotes p.1 p.2) ∧
      List.Forall₂ (Written (depth + 1)) ((parts'.map (·.2)).map F.text) (parts'.map (·.1)) := by
  obtain ⟨parts', hsame, hparts'⟩ := exists_data (R := F.Reprinted (depth + 1)) fun p hp =>
    ih p hp (hd.of_mem (List.mem_cons_of_mem _ (List.mem_map_of_mem hp)))
  exact ⟨parts', hsame, fun p hp => (hparts' p hp).2, forall₂_written fun p hp => (hparts' p hp).1⟩

theorem exists_reprinted_set {x : String} {d : Datum} {e : ε}
    (hd : (Datum.list [.symbol "set", .symbol x, d]).Fits depth)
    (ih : d.Fits (depth + 1) → ∃ d', F.Reprinted (depth + 1) d' e) :
    ∃ d', F.Reprinted depth d' (F.set x e) := by
  obtain ⟨d', hd', hdenotes⟩ := ih (hd.of_mem (by simp))
  have htext : F.text (F.set x e) = bracketed ["set", x, F.text e] := by
    rw [F.text_set]
    apply String.toList_inj.1
    simp [bracketed]
  refine ⟨_, ?_, F.denotes_set hdenotes⟩
  rw [htext]
  exact .list hd.lt (.cons (hd.written_symbol (by simp))
    (.cons (hd.written_symbol (by simp)) (.cons hd' .nil)))

theorem exists_reprinted_cond {test yes no : Datum} {test' yes' no' : ε}
    (hd : (Datum.list [.symbol "if", test, yes, no]).Fits depth)
    (ih₁ : test.Fits (depth + 1) → ∃ d, F.Reprinted (depth + 1) d test')
    (ih₂ : yes.Fits (depth + 1) → ∃ d, F.Reprinted (depth + 1) d yes')
    (ih₃ : no.Fits (depth + 1) → ∃ d, F.Reprinted (depth + 1) d no') :
    ∃ d, F.Reprinted depth d (F.cond test' yes' no') := by
  obtain ⟨d₁, h₁, hd₁⟩ := ih₁ (hd.of_mem (by simp))
  obtain ⟨d₂, h₂, hd₂⟩ := ih₂ (hd.of_mem (by simp))
  obtain ⟨d₃, h₃, hd₃⟩ := ih₃ (hd.of_mem (by simp))
  have htext : F.text (F.cond test' yes' no')
      = bracketed ["if", F.text test', F.text yes', F.text no'] := by
    rw [F.text_cond]
    apply String.toList_inj.1
    simp [bracketed]
  refine ⟨_, ?_, F.denotes_cond hd₁ hd₂ hd₃⟩
  rw [htext]
  exact .list hd.lt (.cons (hd.written_symbol (by simp)) (.cons h₁ (.cons h₂ (.cons h₃ .nil))))

theorem exists_reprinted_loop {test body : Datum} {test' body' : ε}
    (hd : (Datum.list [.symbol "while", test, body]).Fits depth)
    (ih₁ : test.Fits (depth + 1) → ∃ d, F.Reprinted (depth + 1) d test')
    (ih₂ : body.Fits (depth + 1) → ∃ d, F.Reprinted (depth + 1) d body') :
    ∃ d, F.Reprinted depth d (F.loop test' body') := by
  obtain ⟨d₁, h₁, hd₁⟩ := ih₁ (hd.of_mem (by simp))
  obtain ⟨d₂, h₂, hd₂⟩ := ih₂ (hd.of_mem (by simp))
  have htext : F.text (F.loop test' body')
      = bracketed ["while", F.text test', F.text body'] := by
    rw [F.text_loop]
    apply String.toList_inj.1
    simp [bracketed]
  refine ⟨_, ?_, F.denotes_loop hd₁ hd₂⟩
  rw [htext]
  exact .list hd.lt (.cons (hd.written_symbol (by simp)) (.cons h₁ (.cons h₂ .nil)))

theorem exists_reprinted_block {parts : List (Datum × ε)}
    (hd : (Datum.list (.symbol "begin" :: parts.map (·.1))).Fits depth)
    (ih : ∀ p ∈ parts, ∀ {depth}, p.1.Fits depth → ∃ d, F.Reprinted depth d p.2) :
    ∃ d, F.Reprinted depth d (F.block (parts.map (·.2))) := by
  obtain ⟨parts', hsame, hdenotes, hwritten⟩ := F.exists_reprinted_each hd ih
  rw [← hsame]
  refine ⟨_, ?_, F.denotes_block hdenotes⟩
  rw [F.text_block, show "(begin" = "(" ++ "begin" from rfl, F.bracketed_textEach]
  exact .list hd.lt (.cons (hd.written_symbol (by simp)) hwritten)

end CommonForms

/-! ### The functional language -/

namespace Functional

/-- The common forms of the functional language. -/
def commonForms : CommonForms Exp where
  text := Exp.text
  textEach := Exp.textEach
  Denotes := Denotes
  set := .set
  cond := .cond
  loop := .loop
  block := .block
  textEach_nil := rfl
  textEach_cons _ _ := rfl
  text_set _ _ := rfl
  text_cond _ _ _ := rfl
  text_loop _ _ := rfl
  text_block _ := rfl
  denotes_set := .set
  denotes_cond := .cond
  denotes_loop := .loop
  denotes_block := .block

@[simp] theorem commonForms_text (e : Exp) : commonForms.text e = e.text := rfl

namespace Exp

theorem textBindings_eq (bs : List (String × Exp)) :
    textBindings bs = " ".intercalate (bs.map fun b => bracketed [b.1, b.2.text]) := by
  have hone : ∀ (x : String) (e : Exp),
      "(" ++ x ++ " " ++ text e ++ ")" = bracketed [x, e.text] := by
    intro x e
    simp only [bracketed, String.intercalate_cons_cons, String.intercalate_singleton,
      String.append_assoc]
  induction bs with
  | nil => rfl
  | cons b bs ih =>
    obtain ⟨x, e⟩ := b
    cases bs with
    | nil => rw [textBindings, hone, List.map_cons, List.map_nil, String.intercalate_singleton]
    | cons b' bs =>
      have hclose : ") " = ")" ++ " " := rfl
      rw [List.map_cons] at ih
      rw [List.map_cons, List.map_cons, String.intercalate_cons_cons, ← ih, ← hone, textBindings,
        hclose]
      · simp only [String.append_assoc]
      · simp

theorem text_apply (callee : Exp) (args : List Exp) :
    (apply callee args).text = bracketed (callee.text :: args.map text) :=
  commonForms.bracketed_textEach callee.text args

theorem text_lambda (label : Nat) (formals : List String) (body : Exp) :
    (lambda label formals body).text = bracketed ["lambda", bracketed formals, body.text] := by
  show "(lambda " ++ namesText formals ++ " " ++ body.text ++ ")" = _
  apply String.toList_inj.1
  simp [namesText, bracketed]

theorem text_bind (kind : LetKind) (bindings : List (String × Exp)) (body : Exp) :
    (bind kind bindings body).text
      = bracketed [kind.keyword, bracketed (bindings.map fun b => bracketed [b.1, b.2.text]),
          body.text] := by
  show "(" ++ kind.keyword ++ " (" ++ textBindings bindings ++ ") " ++ body.text ++ ")" = _
  rw [textBindings_eq]
  apply String.toList_inj.1
  simp [bracketed]

end Exp

/-- A datum that the printed form of an expression is a text for and that denotes the
expression. -/
abbrev Reprinted : Nat → Datum → Exp → Prop := commonForms.Reprinted

/-- Bindings whose initial values can be printed and read again. -/
theorem exists_reprinted_bindings {bindings : List (Datum × String × Exp)} {depth : Nat}
    (hfits : ∀ b ∈ bindings, (Datum.list [.symbol b.2.1, b.1]).Fits depth)
    (ih : ∀ b ∈ bindings, ∃ d, Reprinted (depth + 1) d b.2.2) :
    ∃ bindings' : List (Datum × String × Exp), bindings'.map (·.2) = bindings.map (·.2) ∧
      (∀ b ∈ bindings', Denotes b.1 b.2.2) ∧
      ∀ b ∈ bindings',
        Written depth (bracketed [b.2.1, b.2.2.text]) (.list [.symbol b.2.1, b.1]) := by
  obtain ⟨bindings', hsame, hbindings'⟩ :=
    exists_data (R := fun d (b : String × Exp) => Reprinted (depth + 1) d b.2) ih
  refine ⟨bindings', hsame, fun b hb => (hbindings' b hb).2, fun b hb => ?_⟩
  -- the name is that of a binding of before, and so it can be written
  obtain ⟨b₀, hb₀, heq⟩ : ∃ b₀ ∈ bindings, b₀.2 = b.2 := by
    have hmem := List.mem_map_of_mem (f := (·.2)) hb
    rw [hsame] at hmem
    exact List.mem_map.1 hmem
  have hname : (Datum.symbol b.2.1).Fits (depth + 1) := by
    rw [← heq]
    exact (hfits b₀ hb₀).of_mem (by simp)
  exact .list (hfits b₀ hb₀).lt (.cons hname.written (.cons (hbindings' b hb).1 .nil))

/-- The printed form of an expression that a fitting datum denotes can be read again. -/
theorem exists_reprinted {d : Datum} {e : Exp} (h : Denotes d e) {depth : Nat}
    (hd : d.Fits depth) : ∃ d', Reprinted depth d' e := by
  induction h generalizing depth with
  | number n => exact ⟨_, .number hd.lt n, .number n⟩
  | bool b => exact ⟨_, .bool hd.lt b, .bool b⟩
  | symbol name => exact ⟨_, hd.written, .symbol name⟩
  | @quote d hdot =>
    have hinner : d.Fits (depth + 1) := hd.of_mem (by simp)
    have hquoted : Written depth ("'" ++ d.text) d.quoted :=
      .quoted hinner.lt hinner.written
    -- numbers and truth values are printed without the quotation
    cases d with
    | number n => exact ⟨_, .number hd.lt n, .number n⟩
    | bool b => exact ⟨_, .bool hd.lt b, .bool b⟩
    | symbol name => exact ⟨_, hquoted, .quote hdot⟩
    | list ds => exact ⟨_, hquoted, .quote hdot⟩
  | set _ ih => exact commonForms.exists_reprinted_set hd ih
  | cond _ _ _ ih₁ ih₂ ih₃ => exact commonForms.exists_reprinted_cond hd ih₁ ih₂ ih₃
  | loop _ _ ih₁ ih₂ => exact commonForms.exists_reprinted_loop hd ih₁ ih₂
  | block _ ih => exact commonForms.exists_reprinted_block hd ih
  | @apply head callee args hhead hcallee _ ih ihs =>
    obtain ⟨head', hhead', hdenotes⟩ := ih (hd.of_mem List.mem_cons_self)
    obtain ⟨args', hsame, hargs', hwritten⟩ := commonForms.exists_reprinted_each hd ihs
    have hkeyword : Keyword.ofDatum? head' = none := by
      -- only a variable is denoted by a symbol, and then by the same one
      cases hdenotes with
      | symbol name =>
        cases hcallee
        exact hhead
      | _ => rfl
    rw [← hsame]
    refine ⟨_, ?_, .apply hkeyword hdenotes hargs'⟩
    rw [commonForms_text, Exp.text_apply]
    exact .list hd.lt (.cons hhead' hwritten)
  | @lambda formals body e hnodup _ ih =>
    have hparts := fun d' => hd.of_mem (d := d')
    obtain ⟨d', hd', hdenotes⟩ := ih (hparts body (by simp))
    have hformals : (Datum.list (formals.map .symbol)).Fits (depth + 1) := hparts _ (by simp)
    refine ⟨_, ?_, .lambda hnodup hdenotes⟩
    rw [commonForms_text, Exp.text_lambda]
    refine .list hd.lt (.cons (hd.written_symbol (by simp))
      (.cons (.list hformals.lt ?_) (.cons hd' .nil)))
    rw [List.forall₂_map_right_iff, List.forall₂_same]
    exact fun x hx => (hformals.of_mem (List.mem_map_of_mem hx)).written
  | @bind kind bindings body e hnodup _ _ ihs ih =>
    have hparts := fun d' => hd.of_mem (d := d')
    obtain ⟨d', hd', hdenotes⟩ := ih (hparts body (by simp))
    have hlist : (Datum.list (bindings.map fun b => .list [.symbol b.2.1, b.1])).Fits (depth + 1) :=
      hparts _ (by simp)
    have hbinding : ∀ b ∈ bindings, (Datum.list [.symbol b.2.1, b.1]).Fits (depth + 1 + 1) :=
      fun b hb => hlist.of_mem (List.mem_map.2 ⟨b, hb, rfl⟩)
    obtain ⟨bindings', hsame, hdenotes', hwritten⟩ := exists_reprinted_bindings hbinding
      fun b hb => ihs b hb ((hbinding b hb).of_mem (by simp))
    rw [← hsame] at hnodup ⊢
    refine ⟨_, ?_, .bind hnodup hdenotes' hdenotes⟩
    rw [commonForms_text, Exp.text_bind]
    exact .list hd.lt (.cons (hd.written_symbol (by simp))
      (.cons (.list hlist.lt (forall₂_written hwritten)) (.cons hd' .nil)))

end Functional

/-! ### The procedural language -/

namespace Procedural

/-- The common forms of the procedural language. -/
def commonForms : CommonForms Exp where
  text := Exp.text
  textEach := Exp.textEach
  Denotes := Denotes
  set := .set
  cond := .cond
  loop := .loop
  block := .block
  textEach_nil := rfl
  textEach_cons _ _ := rfl
  text_set _ _ := rfl
  text_cond _ _ _ := rfl
  text_loop _ _ := rfl
  text_block _ := rfl
  denotes_set := .set
  denotes_cond := .cond
  denotes_loop := .loop
  denotes_block := .block

@[simp] theorem commonForms_text (e : Exp) : commonForms.text e = e.text := rfl

theorem Exp.text_call (function : String) (args : List Exp) :
    (call function args).text = bracketed (function :: args.map text) :=
  commonForms.bracketed_textEach function args

/-- The printed form of an expression that a fitting datum denotes can be read again. -/
theorem exists_reprinted {d : Datum} {e : Exp} (h : Denotes d e) {depth : Nat}
    (hd : d.Fits depth) : ∃ d', commonForms.Reprinted depth d' e := by
  induction h generalizing depth with
  | number n => exact ⟨_, .number hd.lt n, .number n⟩
  | symbol name => exact ⟨_, hd.written, .symbol name⟩
  | set _ ih => exact commonForms.exists_reprinted_set hd ih
  | cond _ _ _ ih₁ ih₂ ih₃ => exact commonForms.exists_reprinted_cond hd ih₁ ih₂ ih₃
  | loop _ _ ih₁ ih₂ => exact commonForms.exists_reprinted_loop hd ih₁ ih₂
  | block _ ih => exact commonForms.exists_reprinted_block hd ih
  | @call function args hname hforeign _ ih =>
    obtain ⟨args', hsame, hargs', hwritten⟩ := commonForms.exists_reprinted_each hd ih
    rw [← hsame]
    refine ⟨_, ?_, .call hname hforeign hargs'⟩
    rw [commonForms_text, Exp.text_call]
    exact .list hd.lt (.cons (hd.written_symbol (by simp)) hwritten)

end Procedural

/-! ### Both languages -/

/-- **Printing an expression and reading it back gives the expression.**  If a text
holds a datum and the datum denotes an expression, then the printed form of the
expression holds a datum, too, and this denotes the same expression. -/
theorem read_text_of_read :
    (∀ (t : String) (d : Datum) (e : Functional.Exp),
      readOne t = .ok d → Functional.Exp.ofDatum d = .ok e →
        ∃ d', readOne e.text = .ok d' ∧ Functional.Exp.ofDatum d' = .ok e) ∧
    (∀ (t : String) (d : Datum) (e : Procedural.Exp),
      readOne t = .ok d → Procedural.Exp.ofDatum d = .ok e →
        ∃ d', readOne e.text = .ok d' ∧ Procedural.Exp.ofDatum d' = .ok e) := by
  refine ⟨fun t d e ht he => ?_, fun t d e ht he => ?_⟩
  · obtain ⟨d', hwritten, hdenotes⟩ :=
      Functional.exists_reprinted (Functional.ofDatum_eq_ok_iff.1 he) (Datum.fits_of_readOne ht)
    exact ⟨d', hwritten.readOne_eq, Functional.ofDatum_eq_ok_iff.2 hdenotes⟩
  · obtain ⟨d', hwritten, hdenotes⟩ :=
      Procedural.exists_reprinted (Procedural.ofDatum_eq_ok_iff.1 he) (Datum.fits_of_readOne ht)
    exact ⟨d', hwritten.readOne_eq, Procedural.ofDatum_eq_ok_iff.2 hdenotes⟩

/-- Square brackets, a padded numeral and quotations of both kinds in one language, and a
call in the other. -/
theorem read_text_of_read_brackets :
    let t := "(let* ([x '(a [-07])]) (f 'x (quote y)))"
    let value : Datum := .list [.symbol "a", .list [.number ⟨-7, by decide, by decide⟩]]
    let d : Datum := .list [.symbol "let*", .list [.list [.symbol "x", .quoted value]],
      .list [.symbol "f", .quoted (.symbol "x"), .quoted (.symbol "y")]]
    let e : Functional.Exp := .bind .sequential [("x", .literal value)]
      (.apply (.var "f") [.literal (.symbol "x"), .literal (.symbol "y")])
    let u := "[begin (set x +05) (* x x)]"
    let d₂ : Datum := .list [.symbol "begin",
      .list [.symbol "set", .symbol "x", .number ⟨5, by decide, by decide⟩],
      .list [.symbol "*", .symbol "x", .symbol "x"]]
    let e₂ : Procedural.Exp := .block [.set "x" (.literal ⟨5, by decide, by decide⟩),
      .call "*" [.var "x", .var "x"]]
    (readOne t = .ok d ∧ Functional.Exp.ofDatum d = .ok e ∧
      ∃ d', readOne e.text = .ok d' ∧ Functional.Exp.ofDatum d' = .ok e) ∧
    (readOne u = .ok d₂ ∧ Procedural.Exp.ofDatum d₂ = .ok e₂ ∧
      ∃ d', readOne e₂.text = .ok d' ∧ Procedural.Exp.ofDatum d' = .ok e₂) := by
  intro t value d e u d₂ e₂
  have ht : readOne t = .ok d := by
    simp only [t, d, value]
    rfl
  have he : Functional.Exp.ofDatum d = .ok e := by rfl
  have hu : readOne u = .ok d₂ := by
    simp only [u, d₂]
    rfl
  have he₂ : Procedural.Exp.ofDatum d₂ = .ok e₂ := by rfl
  exact ⟨⟨ht, he, read_text_of_read.1 t d e ht he⟩, hu, he₂, read_text_of_read.2 u d₂ e₂ hu he₂⟩

end Primer
