/-
Primer/Proofs/Forms.lean

Which data denote which expressions.

For each language `Denotes d e` says that the datum `d` denotes the expression
`e`, with one rule for each form of expression.  Recognising an expression
finds exactly what a datum denotes (`ofDatum_eq_ok_iff`); everything else about
recognised expressions can then be proved from the rules.
-/
import Primer.Functional.Grammar
import Primer.Procedural.Grammar
import Primer.Proofs.Results

namespace Primer

/-- A part of a list is smaller than the list. -/
theorem Datum.sizeOf_lt_of_mem {d : Datum} {ds : List Datum} (h : d ∈ ds) :
    sizeOf d < sizeOf (Datum.list ds) := by
  have hlt := List.sizeOf_lt_of_mem h
  rw [Datum.list.sizeOf_spec]
  omega

theorem Datum.mentionsAny_iff {name : String} {ds : List Datum} :
    mentionsAny name ds = true ↔ ∃ d ∈ ds, d.mentions name = true := by
  induction ds with
  | nil => simp [mentionsAny]
  | cons d ds ih => simp [mentionsAny, ih]

/-- A symbol in a part of a list is in the list. -/
theorem Datum.mentions_of_mem {name : String} {d : Datum} {ds : List Datum} (hd : d ∈ ds)
    (hname : d.mentions name = true) : (Datum.list ds).mentions name = true :=
  mentionsAny_iff.2 ⟨d, hd, hname⟩

/-! ### Names -/

theorem nameOf_eq_ok_iff {form d : Datum} {name : String} :
    nameOf form d = .ok name ↔ d = .symbol name := by
  cases d <;> simp [nameOf]

theorem namesOf_eq_ok_iff {form : Datum} {ds : List Datum} {names : List String} :
    namesOf form ds = .ok names ↔ ds = names.map .symbol := by
  induction ds generalizing names with
  | nil => cases names <;> simp [namesOf]
  | cons d ds ih =>
    rw [namesOf, Except.bind_eq_ok_iff]
    constructor
    · rintro ⟨x, hx, h⟩
      obtain ⟨xs, hxs, h⟩ := Except.bind_eq_ok_iff.1 h
      cases h
      rw [nameOf_eq_ok_iff.1 hx, ih.1 hxs, List.map_cons]
    · intro h
      cases names with
      | nil => cases h
      | cons x xs =>
        obtain ⟨rfl, hds⟩ := List.cons.inj h
        refine ⟨x, rfl, ?_⟩
        rw [ih.2 hds]
        rfl

/-! ### One datum after the other -/

/-- `each` recognises all of some data as `one` recognises a single one. -/
structure RecognisesEach {ε : Type} (one : Datum → Except Malformed ε)
    (each : List Datum → Except Malformed (List ε)) : Prop where
  nil : each [] = .ok []
  cons : ∀ d ds, each (d :: ds) = do
    let e ← one d
    let es ← each ds
    return e :: es

/-- Some data are recognised if each of them is. -/
theorem RecognisesEach.eq_ok_iff {ε : Type} {one : Datum → Except Malformed ε}
    {each : List Datum → Except Malformed (List ε)} (h : RecognisesEach one each)
    {ds : List Datum} {es : List ε} :
    each ds = .ok es
      ↔ ∃ ps : List (Datum × ε), ps.map (·.1) = ds ∧ ps.map (·.2) = es ∧
          ∀ p ∈ ps, one p.1 = .ok p.2 := by
  constructor
  · intro hds
    induction ds generalizing es with
    | nil =>
      rw [h.nil] at hds
      cases hds
      exact ⟨[], rfl, rfl, by simp⟩
    | cons d ds ih =>
      rw [h.cons] at hds
      obtain ⟨e, he, hds⟩ := Except.bind_eq_ok_iff.1 hds
      obtain ⟨es, hes, hds⟩ := Except.bind_eq_ok_iff.1 hds
      cases hds
      obtain ⟨ps, rfl, rfl, hps⟩ := ih hes
      exact ⟨(d, e) :: ps, rfl, rfl, List.forall_mem_cons.2 ⟨he, hps⟩⟩
  · rintro ⟨ps, rfl, rfl, hps⟩
    induction ps with
    | nil => exact h.nil
    | cons p ps ih =>
      obtain ⟨hp, hps⟩ := List.forall_mem_cons.1 hps
      rw [List.map_cons, h.cons, hp, ih hps]
      rfl

/-! ### The functional language -/

namespace Functional

theorem Keyword.ofDatum?_eq_some_iff {d : Datum} {k : Keyword} :
    Keyword.ofDatum? d = some k ↔ d = .symbol k.name := by
  constructor
  · intro h
    obtain ⟨name, hname, hk⟩ := Option.bind_eq_some_iff.1 h
    obtain rfl : d = .symbol name := by
      cases d <;> simp_all [Datum.symbol?]
    congr 1
    unfold Keyword.ofName? at hk
    split at hk <;> cases hk <;> rfl
  · rintro rfl
    cases k with
    | bind kind => cases kind <;> rfl
    | _ => rfl

theorem formalsOf_eq_ok_iff {form d : Datum} {names : List String} :
    formalsOf form d = .ok names ↔ d = .list (names.map .symbol) := by
  cases d <;> simp [formalsOf, namesOf_eq_ok_iff]

/-- The names of bindings have to be distinct, unless they are sequential. -/
theorem repeatedBinding?_eq_none_iff {kind : LetKind} {bindings : List (String × Exp)} :
    repeatedBinding? kind bindings = none
      ↔ (kind ≠ .sequential → (bindings.map (·.1)).Nodup) := by
  cases kind <;> simp [repeatedBinding?, repeated?_eq_none_iff]

theorem checkedLambda_eq_ok_iff {form : Datum} {formals : List String}
    {body : Except Malformed Exp} {e : Exp} :
    checkedLambda form formals body = .ok e
      ↔ formals.Nodup ∧ ∃ b, body = .ok b ∧ .lambda 0 formals b = e := by
  rw [← repeated?_eq_none_iff, ← Except.map_eq_ok_iff, checkedLambda]
  cases repeated? formals <;> simp

theorem checkedBind_eq_ok_iff {form : Datum} {kind : LetKind} {bindings : List (String × Exp)}
    {body : Except Malformed Exp} {e : Exp} :
    checkedBind form kind bindings body = .ok e
      ↔ (kind ≠ .sequential → (bindings.map (·.1)).Nodup) ∧
        ∃ b, body = .ok b ∧ .bind kind bindings b = e := by
  rw [← repeatedBinding?_eq_none_iff, ← Except.map_eq_ok_iff, checkedBind]
  cases repeatedBinding? kind bindings <;> simp

/-- The data that denote an expression. -/
inductive Denotes : Datum → Exp → Prop
  | number (n : Number) : Denotes (.number n) (.literal (.number n))
  | bool (b : Bool) : Denotes (.bool b) (.literal (.bool b))
  | symbol (name : String) : Denotes (.symbol name) (.var name)
  | quote {d : Datum} : d.mentions "." = false → Denotes d.quoted (.literal d)
  | set {x : String} {d : Datum} {e : Exp} : Denotes d e →
      Denotes (.list [.symbol "set", .symbol x, d]) (.set x e)
  | cond {test yes no : Datum} {test' yes' no' : Exp} :
      Denotes test test' → Denotes yes yes' → Denotes no no' →
        Denotes (.list [.symbol "if", test, yes, no]) (.cond test' yes' no')
  | loop {test body : Datum} {test' body' : Exp} : Denotes test test' → Denotes body body' →
      Denotes (.list [.symbol "while", test, body]) (.loop test' body')
  | block {parts : List (Datum × Exp)} : (∀ p ∈ parts, Denotes p.1 p.2) →
      Denotes (.list (.symbol "begin" :: parts.map (·.1))) (.block (parts.map (·.2)))
  | apply {head : Datum} {callee : Exp} {args : List (Datum × Exp)} :
      Keyword.ofDatum? head = none → Denotes head callee → (∀ p ∈ args, Denotes p.1 p.2) →
        Denotes (.list (head :: args.map (·.1))) (.apply callee (args.map (·.2)))
  | lambda {formals : List String} {body : Datum} {e : Exp} : formals.Nodup → Denotes body e →
      Denotes (.list [.symbol "lambda", .list (formals.map .symbol), body]) (.lambda 0 formals e)
  /-- bindings, each after the datum of its initial value -/
  | bind {kind : LetKind} {bindings : List (Datum × String × Exp)} {body : Datum} {e : Exp} :
      (kind ≠ .sequential → ((bindings.map (·.2)).map (·.1)).Nodup) →
      (∀ b ∈ bindings, Denotes b.1 b.2.2) → Denotes body e →
        Denotes (.list [.symbol kind.keyword,
            .list (bindings.map fun b => .list [.symbol b.2.1, b.1]), body])
          (.bind kind (bindings.map (·.2)) e)

theorem recognisesEach : RecognisesEach Exp.ofDatum Exp.ofData where
  nil := by rw [Exp.ofData]
  cons d ds := by rw [Exp.ofData]

/-- Bindings are recognised if each is a name with an expression. -/
theorem ofBindings_eq_ok_iff {form : Datum} {ds : List Datum} {bs : List (String × Exp)} :
    Exp.ofBindings form ds = .ok bs
      ↔ ∃ ps : List (Datum × String × Exp),
          ps.map (fun b => .list [.symbol b.2.1, b.1]) = ds ∧ ps.map (·.2) = bs ∧
            ∀ b ∈ ps, Exp.ofDatum b.1 = .ok b.2.2 := by
  constructor
  · intro h
    induction ds generalizing bs with
    | nil =>
      cases h
      exact ⟨[], rfl, rfl, by simp⟩
    | cons d ds ih =>
      unfold Exp.ofBindings at h
      split at h
      · next heq => cases heq
      · next x d ds' heq =>
        obtain ⟨rfl, rfl⟩ := List.cons.inj heq
        obtain ⟨x, hx, h⟩ := Except.bind_eq_ok_iff.1 h
        obtain ⟨e, he, h⟩ := Except.bind_eq_ok_iff.1 h
        obtain ⟨bs, hbs, h⟩ := Except.bind_eq_ok_iff.1 h
        cases h
        obtain rfl := nameOf_eq_ok_iff.1 hx
        obtain ⟨ps, rfl, rfl, hps⟩ := ih hbs
        exact ⟨(d, x, e) :: ps, rfl, rfl, List.forall_mem_cons.2 ⟨he, hps⟩⟩
      · cases h
  · rintro ⟨ps, rfl, rfl, hps⟩
    induction ps with
    | nil => rfl
    | cons b ps ih =>
      obtain ⟨hb, hps⟩ := List.forall_mem_cons.1 hps
      rw [List.map_cons, Exp.ofBindings, hb, ih hps]
      rfl

/-- What is recognised is denoted. -/
theorem denotes_of_ofDatum {d : Datum} {e : Exp} (h : Exp.ofDatum d = .ok e) : Denotes d e := by
  -- the initial values of bindings are parts of parts of parts
  induction hn : sizeOf d using Nat.strongRecOn generalizing d e with
  | _ n ih =>
  subst hn
  match d with
  | .number n =>
    cases h
    exact .number n
  | .bool b =>
    cases h
    exact .bool b
  | .symbol name =>
    cases h
    exact .symbol name
  | .list [] => cases h
  | .list (head :: parts) =>
    have hpart : ∀ d ∈ head :: parts, ∀ e, Exp.ofDatum d = .ok e → Denotes d e :=
      fun d hd e he => ih _ (Datum.sizeOf_lt_of_mem hd) he rfl
    rw [Exp.ofDatum] at h
    split at h
    · next hhead =>
      obtain ⟨callee, hcallee, h⟩ := Except.bind_eq_ok_iff.1 h
      obtain ⟨args, hargs, h⟩ := Except.bind_eq_ok_iff.1 h
      cases h
      obtain ⟨ps, rfl, rfl, hps⟩ := recognisesEach.eq_ok_iff.1 hargs
      refine .apply hhead (hpart head List.mem_cons_self callee hcallee) fun p hp => ?_
      exact hpart p.1 (List.mem_cons_of_mem _ (List.mem_map_of_mem hp)) p.2 (hps p hp)
    · next keyword hhead =>
      obtain rfl := Keyword.ofDatum?_eq_some_iff.1 hhead
      split at h
      · -- quote
        next d =>
        split at h
        · cases h
        · next hdot =>
          cases h
          exact .quote (by simpa using hdot)
      · -- set
        next x d =>
        obtain ⟨x, hx, h⟩ := Except.bind_eq_ok_iff.1 h
        obtain ⟨e, he, h⟩ := Except.bind_eq_ok_iff.1 h
        cases h
        obtain rfl := nameOf_eq_ok_iff.1 hx
        exact .set (hpart d (by simp) e he)
      · -- if
        next test yes no =>
        obtain ⟨test', htest, h⟩ := Except.bind_eq_ok_iff.1 h
        obtain ⟨yes', hyes, h⟩ := Except.bind_eq_ok_iff.1 h
        obtain ⟨no', hno, h⟩ := Except.bind_eq_ok_iff.1 h
        cases h
        exact .cond (hpart test (by simp) test' htest) (hpart yes (by simp) yes' hyes)
          (hpart no (by simp) no' hno)
      · -- while
        next test body =>
        obtain ⟨test', htest, h⟩ := Except.bind_eq_ok_iff.1 h
        obtain ⟨body', hbody, h⟩ := Except.bind_eq_ok_iff.1 h
        cases h
        exact .loop (hpart test (by simp) test' htest) (hpart body (by simp) body' hbody)
      · -- begin
        obtain ⟨es, hes, h⟩ := Except.bind_eq_ok_iff.1 h
        cases h
        obtain ⟨ps, rfl, rfl, hps⟩ := recognisesEach.eq_ok_iff.1 hes
        refine .block fun p hp => ?_
        exact hpart p.1 (List.mem_cons_of_mem _ (List.mem_map_of_mem hp)) p.2 (hps p hp)
      · -- lambda
        next formals body =>
        obtain ⟨names, hnames, h⟩ := Except.bind_eq_ok_iff.1 h
        obtain rfl := formalsOf_eq_ok_iff.1 hnames
        obtain ⟨hnodup, body', hbody, rfl⟩ := checkedLambda_eq_ok_iff.1 h
        exact .lambda hnodup (hpart body (by simp) body' hbody)
      · -- the binding forms
        next kind bindings body =>
        obtain ⟨bs, hbs, h⟩ := Except.bind_eq_ok_iff.1 h
        obtain ⟨hnodup, body', hbody, rfl⟩ := checkedBind_eq_ok_iff.1 h
        obtain ⟨ps, rfl, rfl, hps⟩ := ofBindings_eq_ok_iff.1 hbs
        refine .bind hnodup (fun b hb => ?_) (hpart body (by simp) body' hbody)
        refine ih _ ?_ (hps b hb) rfl
        calc sizeOf b.1 < sizeOf (Datum.list [.symbol b.2.1, b.1]) :=
              Datum.sizeOf_lt_of_mem (by simp)
          _ < sizeOf (Datum.list (ps.map fun b => .list [.symbol b.2.1, b.1])) :=
              Datum.sizeOf_lt_of_mem (List.mem_map.2 ⟨b, hb, rfl⟩)
          _ < _ := Datum.sizeOf_lt_of_mem (by simp)
      · cases h

/-- Recognising an expression finds what the datum denotes. -/
theorem ofDatum_eq_ok_iff {d : Datum} {e : Exp} : Exp.ofDatum d = .ok e ↔ Denotes d e := by
  refine ⟨denotes_of_ofDatum, fun h => ?_⟩
  have hkeyword : ∀ k : Keyword, Keyword.ofDatum? (.symbol k.name) = some k := fun k =>
    Keyword.ofDatum?_eq_some_iff.2 rfl
  induction h with
  | number n => rfl
  | bool b => rfl
  | symbol name => rfl
  | quote hdot =>
    rw [Datum.quoted, Exp.ofDatum, show Keyword.ofDatum? (.symbol "quote") = _ from hkeyword .quote]
    simp [hdot]
  | set _ ih =>
    rw [Exp.ofDatum, show Keyword.ofDatum? (.symbol "set") = _ from hkeyword .set]
    simp only [ih]
    rfl
  | cond _ _ _ ih₁ ih₂ ih₃ =>
    rw [Exp.ofDatum, show Keyword.ofDatum? (.symbol "if") = _ from hkeyword .cond]
    simp only [ih₁, ih₂, ih₃]
    rfl
  | loop _ _ ih₁ ih₂ =>
    rw [Exp.ofDatum, show Keyword.ofDatum? (.symbol "while") = _ from hkeyword .loop]
    simp only [ih₁, ih₂]
    rfl
  | block _ ih =>
    rw [Exp.ofDatum, show Keyword.ofDatum? (.symbol "begin") = _ from hkeyword .block]
    simp only [recognisesEach.eq_ok_iff.2 ⟨_, rfl, rfl, ih⟩]
    rfl
  | apply hhead _ _ ih ihs =>
    rw [Exp.ofDatum, hhead]
    simp only [ih, recognisesEach.eq_ok_iff.2 ⟨_, rfl, rfl, ihs⟩]
    rfl
  | lambda hnodup _ ih =>
    rw [Exp.ofDatum, show Keyword.ofDatum? (.symbol "lambda") = _ from hkeyword .lambda]
    simp only [formalsOf_eq_ok_iff.2 rfl]
    exact checkedLambda_eq_ok_iff.2 ⟨hnodup, _, ih, rfl⟩
  | @bind kind bindings body e hnodup _ _ ihs ih =>
    rw [Exp.ofDatum, show Keyword.ofDatum? (.symbol kind.keyword) = _ from hkeyword (.bind kind)]
    simp only [ofBindings_eq_ok_iff.2 ⟨_, rfl, rfl, ihs⟩]
    exact checkedBind_eq_ok_iff.2 ⟨hnodup, _, ih, rfl⟩

end Functional

/-! ### The procedural language -/

namespace Procedural

theorem Keyword.ofName?_eq_some_iff {name : String} {k : Keyword} :
    Keyword.ofName? name = some k ↔ name = k.name := by
  constructor
  · intro h
    unfold Keyword.ofName? at h
    split at h <;> cases h <;> rfl
  · rintro rfl
    cases k <;> rfl

/-- The data that denote an expression. -/
inductive Denotes : Datum → Exp → Prop
  | number (n : Number) : Denotes (.number n) (.literal n)
  | symbol (name : String) : Denotes (.symbol name) (.var name)
  | set {x : String} {d : Datum} {e : Exp} : Denotes d e →
      Denotes (.list [.symbol "set", .symbol x, d]) (.set x e)
  | cond {test yes no : Datum} {test' yes' no' : Exp} :
      Denotes test test' → Denotes yes yes' → Denotes no no' →
        Denotes (.list [.symbol "if", test, yes, no]) (.cond test' yes' no')
  | loop {test body : Datum} {test' body' : Exp} : Denotes test test' → Denotes body body' →
      Denotes (.list [.symbol "while", test, body]) (.loop test' body')
  | block {parts : List (Datum × Exp)} : (∀ p ∈ parts, Denotes p.1 p.2) →
      Denotes (.list (.symbol "begin" :: parts.map (·.1))) (.block (parts.map (·.2)))
  | call {function : String} {args : List (Datum × Exp)} :
      Keyword.ofName? function = none → isForeign function = false →
      (∀ p ∈ args, Denotes p.1 p.2) →
        Denotes (.list (.symbol function :: args.map (·.1))) (.call function (args.map (·.2)))

theorem recognisesEach : RecognisesEach Exp.ofDatum Exp.ofData where
  nil := by rw [Exp.ofData]
  cons d ds := by rw [Exp.ofData]

/-- What is recognised is denoted. -/
theorem denotes_of_ofDatum {d : Datum} {e : Exp} (h : Exp.ofDatum d = .ok e) : Denotes d e := by
  induction hn : sizeOf d using Nat.strongRecOn generalizing d e with
  | _ n ih =>
  subst hn
  match d with
  | .number n =>
    cases h
    exact .number n
  | .bool b => cases h
  | .symbol name =>
    cases h
    exact .symbol name
  | .list [] => cases h
  | .list (.number n :: _) => cases h
  | .list (.bool b :: _) => cases h
  | .list (.list ds :: _) => cases h
  | .list (.symbol function :: parts) =>
    have hpart : ∀ d ∈ parts, ∀ e, Exp.ofDatum d = .ok e → Denotes d e :=
      fun d hd e he => ih _ (Datum.sizeOf_lt_of_mem (List.mem_cons_of_mem _ hd)) he rfl
    rw [Exp.ofDatum] at h
    simp only [Datum.symbol?] at h
    split at h
    · next hname =>
      split at h
      · cases h
      · next hforeign =>
        obtain ⟨args, hargs, h⟩ := Except.bind_eq_ok_iff.1 h
        cases h
        obtain ⟨ps, rfl, rfl, hps⟩ := recognisesEach.eq_ok_iff.1 hargs
        refine .call hname (by simpa using hforeign) fun p hp => ?_
        exact hpart p.1 (List.mem_map_of_mem hp) p.2 (hps p hp)
    · next keyword hname =>
      obtain rfl := Keyword.ofName?_eq_some_iff.1 hname
      split at h
      · -- set
        next x d =>
        obtain ⟨x, hx, h⟩ := Except.bind_eq_ok_iff.1 h
        obtain ⟨e, he, h⟩ := Except.bind_eq_ok_iff.1 h
        cases h
        obtain rfl := nameOf_eq_ok_iff.1 hx
        exact .set (hpart d (by simp) e he)
      · -- if
        next test yes no =>
        obtain ⟨test', htest, h⟩ := Except.bind_eq_ok_iff.1 h
        obtain ⟨yes', hyes, h⟩ := Except.bind_eq_ok_iff.1 h
        obtain ⟨no', hno, h⟩ := Except.bind_eq_ok_iff.1 h
        cases h
        exact .cond (hpart test (by simp) test' htest) (hpart yes (by simp) yes' hyes)
          (hpart no (by simp) no' hno)
      · -- while
        next test body =>
        obtain ⟨test', htest, h⟩ := Except.bind_eq_ok_iff.1 h
        obtain ⟨body', hbody, h⟩ := Except.bind_eq_ok_iff.1 h
        cases h
        exact .loop (hpart test (by simp) test' htest) (hpart body (by simp) body' hbody)
      · -- begin
        obtain ⟨es, hes, h⟩ := Except.bind_eq_ok_iff.1 h
        cases h
        obtain ⟨ps, rfl, rfl, hps⟩ := recognisesEach.eq_ok_iff.1 hes
        exact .block fun p hp => hpart p.1 (List.mem_map_of_mem hp) p.2 (hps p hp)
      · cases h

/-- Recognising an expression finds what the datum denotes. -/
theorem ofDatum_eq_ok_iff {d : Datum} {e : Exp} : Exp.ofDatum d = .ok e ↔ Denotes d e := by
  refine ⟨denotes_of_ofDatum, fun h => ?_⟩
  induction h with
  | number n => rfl
  | symbol name => rfl
  | set _ ih =>
    rw [Exp.ofDatum]
    simp only [Datum.symbol?, show Keyword.ofName? "set" = some .set from rfl, ih]
    rfl
  | cond _ _ _ ih₁ ih₂ ih₃ =>
    rw [Exp.ofDatum]
    simp only [Datum.symbol?, show Keyword.ofName? "if" = some .cond from rfl, ih₁, ih₂, ih₃]
    rfl
  | loop _ _ ih₁ ih₂ =>
    rw [Exp.ofDatum]
    simp only [Datum.symbol?, show Keyword.ofName? "while" = some .loop from rfl, ih₁, ih₂]
    rfl
  | block _ ih =>
    rw [Exp.ofDatum]
    simp only [Datum.symbol?, show Keyword.ofName? "begin" = some .block from rfl,
      recognisesEach.eq_ok_iff.2 ⟨_, rfl, rfl, ih⟩]
    rfl
  | call hname hforeign _ ih =>
    rw [Exp.ofDatum]
    simp only [Datum.symbol?, hname, hforeign, recognisesEach.eq_ok_iff.2 ⟨_, rfl, rfl, ih⟩]
    rfl

end Procedural

end Primer
