/-
Primer/Proofs/Functional/Quotations.lean

Where symbols come from.

No primitive makes a symbol, so the symbols in the values of a program are those of its
quotations.  `Exp.QuotesOnly N` says that all symbols that are quoted in an expression have
names as `N` says.  As long as only such expressions are evaluated, all symbols in values
have such names (`quotationInvariant`).

What is quoted in a form stands in the text that the form was read from, and a quotation
with a dot in it is refused.  So all forms quote only names that can be read and are not
the dot (`quotesOnly_of_reads`).
-/
import Primer.Proofs.Functional.Binders
import Primer.Proofs.Functional.Invariant
import Primer.Proofs.Symbols
import Primer.Proofs.Units

namespace Primer.Functional

variable {N : String → Prop}

/-! ### Symbols in values -/

/-- The names of the symbols in a value, at any depth. -/
def Value.symbols : Value → List String
  | .symbol name => [name]
  | .pair a d => a.symbols ++ d.symbols
  | _ => []

mutual

/-- The symbols of a quoted datum are those of the datum. -/
theorem Value.mentions_of_mem_symbols {name : String} (d : Datum)
    (h : name ∈ (Value.ofDatum d).symbols) : d.mentions name = true :=
  match d with
  | .number _ | .bool _ => by cases h
  | .symbol other => by
      obtain rfl := List.mem_singleton.1 h
      exact beq_self_eq_true name
  | .list items => Value.mentionsAny_of_mem_symbols items h

theorem Value.mentionsAny_of_mem_symbols {name : String} (ds : List Datum)
    (h : name ∈ (Value.ofData ds).symbols) : Datum.mentionsAny name ds = true :=
  match ds with
  | [] => by cases h
  | d :: ds => by
      rw [Datum.mentionsAny, Bool.or_eq_true]
      exact (List.mem_append.1 h).imp (Value.mentions_of_mem_symbols d)
        (Value.mentionsAny_of_mem_symbols ds)

end

/-! ### Quotations in expressions -/

namespace Exp

/-- The symbols that are quoted in an expression have names as `N` says. -/
def QuotesOnly (N : String → Prop) (e : Exp) : Prop :=
  ∀ d, e.Contains (.literal d) → ∀ name, d.mentions name = true → N name

variable {e : Exp}

theorem QuotesOnly.mono {N' : String → Prop} (h : e.QuotesOnly N) (hN : ∀ name, N name → N' name) :
    e.QuotesOnly N' :=
  fun d hd name hname => hN name (h d hd name hname)

theorem QuotesOnly.part (h : e.QuotesOnly N) {part : Exp} (hpart : part ∈ e.parts) :
    part.QuotesOnly N :=
  fun d hd => h d (.head (.inl hpart) hd)

theorem QuotesOnly.body (h : e.QuotesOnly N) {bound : List String} {body : Exp}
    (hbody : (bound, body) ∈ e.bodies) : body.QuotesOnly N :=
  fun d hd => h d (.head (.inr ⟨bound, hbody⟩) hd)

/-- An expression quotes what it says itself, and what its parts and bodies quote. -/
theorem quotesOnly_iff : e.QuotesOnly N ↔
    (∀ d, e = .literal d → ∀ name, d.mentions name = true → N name) ∧
      (∀ part ∈ e.parts, part.QuotesOnly N) ∧ ∀ b ∈ e.bodies, b.2.QuotesOnly N := by
  refine ⟨fun h => ⟨fun d hd => h d (hd ▸ .refl), fun _ => h.part, fun _ => h.body⟩, ?_⟩
  rintro ⟨hself, hparts, hbodies⟩ d hd
  rcases hd.cases_head with rfl | ⟨e', hpart | ⟨bound, hbody⟩, hd⟩
  · exact hself d rfl
  · exact hparts e' hpart d hd
  · exact hbodies (bound, e') hbody d hd

@[simp] theorem quotesOnly_literal {d : Datum} :
    (literal d).QuotesOnly N ↔ ∀ name, d.mentions name = true → N name := by
  rw [quotesOnly_iff]
  simp [parts, bodies]

@[simp] theorem quotesOnly_var (x : String) : (var x).QuotesOnly N := by
  rw [quotesOnly_iff]
  simp [parts, bodies]

@[simp] theorem quotesOnly_set {x : String} : (set x e).QuotesOnly N ↔ e.QuotesOnly N := by
  rw [quotesOnly_iff]
  simp [parts, bodies]

@[simp] theorem quotesOnly_cond {test yes no : Exp} : (cond test yes no).QuotesOnly N ↔
    test.QuotesOnly N ∧ yes.QuotesOnly N ∧ no.QuotesOnly N := by
  rw [quotesOnly_iff]
  simp [parts, bodies]

@[simp] theorem quotesOnly_loop {test body : Exp} :
    (loop test body).QuotesOnly N ↔ test.QuotesOnly N ∧ body.QuotesOnly N := by
  rw [quotesOnly_iff]
  simp [parts, bodies]

@[simp] theorem quotesOnly_block {es : List Exp} :
    (block es).QuotesOnly N ↔ ∀ e ∈ es, e.QuotesOnly N := by
  rw [quotesOnly_iff]
  simp [parts, bodies]

@[simp] theorem quotesOnly_apply {callee : Exp} {args : List Exp} :
    (apply callee args).QuotesOnly N ↔ callee.QuotesOnly N ∧ ∀ e ∈ args, e.QuotesOnly N := by
  rw [quotesOnly_iff]
  simp [parts, bodies]

@[simp] theorem quotesOnly_lambda {label : Nat} {formals : List String} {body : Exp} :
    (lambda label formals body).QuotesOnly N ↔ body.QuotesOnly N := by
  rw [quotesOnly_iff]
  simp [parts, bodies]

@[simp] theorem quotesOnly_bind {kind : LetKind} {bindings : List (String × Exp)} {body : Exp} :
    (bind kind bindings body).QuotesOnly N ↔
      (∀ b ∈ bindings, b.2.QuotesOnly N) ∧ body.QuotesOnly N := by
  cases kind with
  | plain =>
    rw [quotesOnly_iff]
    simp [parts, bodies, -List.mem_map, List.forall_mem_map]
  | sequential =>
    -- the bindings after the first are a body
    induction bindings with
    | nil =>
      rw [quotesOnly_iff]
      simp [parts, bodies]
    | cons b bs ih =>
      rw [quotesOnly_iff]
      simp [parts, bodies, ih, and_assoc]
  | recursive =>
    rw [quotesOnly_iff]
    simp [parts, bodies, -List.mem_map, List.forall_mem_map, and_comm]

mutual

/-- Labels have nothing to do with quotations. -/
theorem quotesOnly_labelled (next : Nat) (e : Exp) :
    (e.labelled next).1.QuotesOnly N ↔ e.QuotesOnly N :=
  match e with
  | literal _ => .rfl
  | var _ => .rfl
  | set _ e => by simp only [labelled, quotesOnly_set, quotesOnly_labelled _ e]
  | cond test yes no => by
      simp only [labelled, quotesOnly_cond, quotesOnly_labelled _ test,
        quotesOnly_labelled _ yes, quotesOnly_labelled _ no]
  | loop test body => by
      simp only [labelled, quotesOnly_loop, quotesOnly_labelled _ test,
        quotesOnly_labelled _ body]
  | block parts => by simp only [labelled, quotesOnly_block, quotesOnlyEach_labelled _ parts]
  | apply callee args => by
      simp only [labelled, quotesOnly_apply, quotesOnly_labelled _ callee,
        quotesOnlyEach_labelled _ args]
  | lambda _ formals body => by
      simp only [labelled, quotesOnly_lambda, quotesOnly_labelled _ body]
  | bind kind bindings body => by
      simp only [labelled, quotesOnly_bind, quotesOnlyInitial_labelled _ bindings,
        quotesOnly_labelled _ body]

theorem quotesOnlyEach_labelled (next : Nat) (es : List Exp) :
    (∀ e ∈ (labelledEach next es).1, e.QuotesOnly N) ↔ ∀ e ∈ es, e.QuotesOnly N :=
  match es with
  | [] => .rfl
  | e :: es => by
      simp only [labelledEach, List.forall_mem_cons, quotesOnly_labelled _ e,
        quotesOnlyEach_labelled _ es]

theorem quotesOnlyInitial_labelled (next : Nat) (bs : List (String × Exp)) :
    (∀ b ∈ (labelledBindings next bs).1, b.2.QuotesOnly N) ↔ ∀ b ∈ bs, b.2.QuotesOnly N :=
  match bs with
  | [] => .rfl
  | (x, e) :: bs => by
      simp only [labelledBindings, List.forall_mem_cons, quotesOnly_labelled _ e,
        quotesOnlyInitial_labelled _ bs]

end

end Exp

/-! ### Quotations in forms -/

/-- The names that may stand in a quotation within a datum. -/
def QuotableIn (d : Datum) (name : String) : Prop := d.mentions name = true ∧ name ≠ "."

/-- What an expression quotes stands in the datum that denotes it, and is no dot. -/
theorem Denotes.quotesOnly {d : Datum} {e : Exp} (h : Denotes d e) :
    e.QuotesOnly (QuotableIn d) := by
  have hpart : ∀ {d' : Datum} {ds : List Datum} {e' : Exp}, e'.QuotesOnly (QuotableIn d') →
      d' ∈ ds → e'.QuotesOnly (QuotableIn (.list ds)) := fun he' hd' =>
    he'.mono fun name hname => ⟨Datum.mentions_of_mem hd' hname.1, hname.2⟩
  induction h with
  | number n => exact Exp.quotesOnly_literal.2 fun name hname => by cases hname
  | bool b => exact Exp.quotesOnly_literal.2 fun name hname => by cases hname
  | symbol name => exact Exp.quotesOnly_var name
  | @quote d hdot =>
    refine Exp.quotesOnly_literal.2 fun name hname => ⟨?_, ?_⟩
    · exact Datum.mentions_of_mem (by simp) hname
    · rintro rfl
      rw [hdot] at hname
      cases hname
  | set _ ih => exact Exp.quotesOnly_set.2 (hpart ih (by simp))
  | cond _ _ _ ih₁ ih₂ ih₃ =>
    exact Exp.quotesOnly_cond.2
      ⟨hpart ih₁ (by simp), hpart ih₂ (by simp), hpart ih₃ (by simp)⟩
  | loop _ _ ih₁ ih₂ =>
    exact Exp.quotesOnly_loop.2 ⟨hpart ih₁ (by simp), hpart ih₂ (by simp)⟩
  | block _ ihs =>
    refine Exp.quotesOnly_block.2 fun e he => ?_
    obtain ⟨p, hp, rfl⟩ := List.mem_map.1 he
    exact hpart (ihs p hp) (List.mem_cons_of_mem _ (List.mem_map_of_mem hp))
  | apply _ _ _ ih ihs =>
    refine Exp.quotesOnly_apply.2 ⟨hpart ih List.mem_cons_self, fun e he => ?_⟩
    obtain ⟨p, hp, rfl⟩ := List.mem_map.1 he
    exact hpart (ihs p hp) (List.mem_cons_of_mem _ (List.mem_map_of_mem hp))
  | lambda _ _ ih => exact Exp.quotesOnly_lambda.2 (hpart ih (by simp))
  | bind _ _ _ ihs ih =>
    refine Exp.quotesOnly_bind.2 ⟨fun b hb => ?_, hpart ih (by simp)⟩
    obtain ⟨p, hp, rfl⟩ := List.mem_map.1 hb
    -- an initial value is a part of a binding, which is a part of the bindings
    have hbinding := hpart (ihs p hp) (List.mem_cons_of_mem (Datum.symbol p.2.1)
      (List.mem_singleton.2 rfl))
    have hbindings := hpart hbinding
      (List.mem_map_of_mem (f := fun b => Datum.list [.symbol b.2.1, b.1]) hp)
    exact hpart hbindings (by simp)

/-- The names that symbols have in a program: they can be read, and are not the dot. -/
def Nameable (name : String) : Prop := Readable name ∧ name ≠ "."

/-- The forms that are read quote such names only. -/
theorem quotesOnly_of_reads {form : Form Exp Lambda} (h : Language.functional.Reads form) :
    (∀ e ∈ form.exps, e.QuotesOnly Nameable) ∧
      ∀ name f, form = .definition (.function name f) → f.body.QuotesOnly Nameable := by
  obtain ⟨source, text, entry, hentry, hform⟩ := h
  obtain ⟨d, hd, hrecognise⟩ := Language.form?_eq_some_iff.1 hform
  have hname : ∀ {d' : Datum} {e : Exp}, Exp.ofDatum d' = .ok e →
      (∀ name, d'.mentions name = true → d.mentions name = true) → e.QuotesOnly Nameable := by
    intro d' e he hmentions
    refine (denotes_of_ofDatum he).quotesOnly.mono fun name hname => ⟨?_, hname.2⟩
    exact ⟨source, text, entry, hentry, d, hd, hmentions name hname.1⟩
  obtain ⟨hexps, hfunction⟩ := Form.of_ofDatum (ofDatum_of_recognise hrecognise)
  refine ⟨fun e he => ?_, fun name f heq => ?_⟩
  · obtain ⟨d', hd', hmentions⟩ := hexps e he
    exact hname hd' hmentions
  · obtain ⟨parts, hparts, hmentions⟩ := hfunction name f heq
    obtain ⟨part, hpart, hbody⟩ := Lambda.of_ofParts hparts
    exact hname hbody (hmentions part hpart)

/-! ### Evaluation -/

/-- Symbols have names as `N` says, in values and in what functions quote. -/
def quotationInvariant (N : String → Prop) : Invariant where
  value v := (∀ name ∈ v.symbols, N name) ∧ v.AllClosures fun f _ => f.toExp.QuotesOnly N
  scope e _ := e.QuotesOnly N
  frame _ := True
  number n := by simp [Value.symbols, Value.AllClosures, Value.closures]
  bool b := by simp [Value.symbols, Value.AllClosures, Value.closures]
  pair := by
    simp only [Value.symbols, Value.AllClosures, Value.closures, List.mem_append, or_imp,
      forall_and]
    exact and_and_and_comm
  closure := by simp [Value.symbols, Value.AllClosures, Value.closures]
  placeholder := by simp [Value.symbols, Value.AllClosures, Value.closures]
  literal h := by
    refine ⟨fun name hname => ?_, Value.allClosures_ofDatum _⟩
    exact Exp.quotesOnly_literal.1 h name (Value.mentions_of_mem_symbols _ hname)
  part h hpart := h.part hpart
  body h hbody _ := h.body hbody
  frames _ _ _ := trivial

end Primer.Functional
