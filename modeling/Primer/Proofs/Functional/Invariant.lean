/-
Primer/Proofs/Functional/Invariant.lean

Invariants that are about values.

An `Invariant` says which values there may be, and in which environments an expression
may be evaluated, so that values come from values: the value of a quotation, the closure of
a lambda expression, what primitives make of what they are given.  Then evaluation keeps
it (`Invariant.eval`), and every evaluation in the course of another one begins where the
invariant holds (`Invariant.admits_of_includes`).

An evaluation is compared with itself here.  What goes together with itself is what has the
property in question, so the lemmas on computations side by side serve for one of them.
-/
import Primer.Proofs.Functional.Closures
import Primer.Proofs.Functional.Course

namespace Primer.Functional

open Outcome

/-! ### What primitives make -/

/-- What a primitive yields: one of its arguments, a number, a truth value, a pair of its
arguments, or a part of its argument. -/
inductive Primitive.Makes (args : List Value) : Value → Prop
  | given {v : Value} : v ∈ args → Makes args v
  | number (n : Number) : Makes args (.number n)
  | bool (b : Bool) : Makes args (.bool b)
  | pair {v w : Value} : v ∈ args → w ∈ args → Makes args (.pair v w)
  | car {a d : Value} : .pair a d ∈ args → Makes args a
  | cdr {a d : Value} : .pair a d ∈ args → Makes args d

theorem Primitive.makes_compute {p : Primitive} {args : List Value} {v : Value}
    (h : p.compute args = .ok v) : Makes args v := by
  revert h
  fun_cases Primitive.compute p args with
  | case1 a b | case2 a b | case3 a b | case4 a b =>
    intro h
    obtain ⟨operands, -, hresult⟩ := Except.bind_eq_ok_iff.1 h
    obtain ⟨n, -, hv⟩ := Except.bind_eq_ok_iff.1 hresult
    cases hv
    exact .number n
  | case5 a b | case6 a b =>
    intro h
    obtain ⟨operands, -, hv⟩ := Except.bind_eq_ok_iff.1 h
    cases hv
    exact .bool _
  | case8 a b =>
    rintro ⟨⟩
    exact .pair (by simp) (by simp)
  | case9 a d =>
    rintro ⟨⟩
    exact .car (List.mem_singleton.2 rfl)
  | case11 a d =>
    rintro ⟨⟩
    exact .cdr (List.mem_singleton.2 rfl)
  | case7 | case13 | case14 | case15 | case16 | case17 | case18 =>
    rintro ⟨⟩
    exact .bool _
  | _ => rintro ⟨⟩

theorem Primitive.makes_run {p : Primitive} {args : List Value} {out out' : Channel} {v : Value}
    (h : p.run args out = .value v out') : Makes args v := by
  revert h
  fun_cases Primitive.run p args out with
  | case1 | case2 | case3 =>
    intro h
    obtain ⟨_, -, rfl⟩ := map_eq_value_iff.1 h
    exact .given (List.mem_singleton.2 rfl)
  | case4 =>
    intro h
    obtain ⟨n, out₁, -, hrest⟩ := andThen_eq_value_iff.1 h
    obtain ⟨_, -, rfl⟩ := map_eq_value_iff.1 hrest
    exact .given (List.mem_singleton.2 rfl)
  | case5 =>
    intro h
    exact makes_compute (ofExcept_eq_value h)

/-! ### Invariants -/

/-- What there may be in the course of an evaluation. -/
structure Invariant where
  value : Value → Prop
  /-- the environments in which an expression may be evaluated -/
  scope : Exp → Env → Prop
  /-- the frames that a program may get at -/
  frame : FrameId → Prop
  number : ∀ n, value (.number n)
  bool : ∀ b, value (.bool b)
  pair : ∀ {a d}, value (.pair a d) ↔ value a ∧ value d
  closure : ∀ {f env}, value (.closure f env) ↔ scope f.toExp env
  placeholder : value .unspecified
  literal : ∀ {d env}, scope (.literal d) env → value (.ofDatum d)
  part : ∀ {e env part}, scope e env → part ∈ e.parts → scope part env
  body : ∀ {e env names body id}, scope e env → (names, body) ∈ e.bodies → frame id →
    scope body ⟨id, env.frames⟩
  frames : ∀ {e env}, scope e env → ∀ id ∈ env.frames, frame id

namespace Invariant

variable (I : Invariant)

/-- The values in sight are as the invariant says, and so are frames to come. -/
def Holds (m : State) : Prop := m.memory.store.Keeping I.frame I.value

/-- The same state twice, in which the invariant holds. -/
def Both (m m' : State) : Prop := m = m' ∧ I.Holds m

/-- The same value twice, one that there may be. -/
def Same (v v' : Value) : Prop := v = v' ∧ I.value v

/-- A computation that ends where the invariant holds, with a value that there may be. -/
def Keeps (o : Outcome State Value) : Prop := Agree I.Both I.Same o o

variable {I} {l : Limits} {left : Nat} {e : Exp} {env : Env} {m m' : State} {v : Value}

theorem Keeps.of_value {o : Outcome State Value} (h : I.Keeps o) (ho : o = .value v m) :
    I.Holds m ∧ I.value v := by
  subst ho
  cases h with
  | value _ hm hv => exact ⟨hm.2, hv.2⟩

theorem Keeps.state {o : Outcome State Value} (h : I.Keeps o) : I.Holds o.state := by
  obtain ⟨-, -, hm⟩ := Match.state h
  exact hm.2

theorem value_of_makes {args : List Value} (h : Primitive.Makes args v)
    (hargs : ∀ a ∈ args, I.value a) : I.value v := by
  cases h with
  | given hv => exact hargs _ hv
  | number n => exact I.number n
  | bool b => exact I.bool b
  | pair hv hw => exact I.pair.2 ⟨hargs _ hv, hargs _ hw⟩
  | car hv => exact (I.pair.1 (hargs _ hv)).1
  | cdr hv => exact (I.pair.1 (hargs _ hv)).2

theorem values_of_same {vs vs' : List Value} (h : List.Forall₂ I.Same vs vs') :
    vs = vs' ∧ ∀ v ∈ vs, I.value v := by
  induction h with
  | nil => exact ⟨rfl, List.forall_mem_nil _⟩
  | cons hv _ ih =>
    obtain ⟨rfl, hvalue⟩ := hv
    exact ⟨congrArg _ ih.1, List.forall_mem_cons.2 ⟨hvalue, ih.2⟩⟩

/-! ### States -/

theorem Holds.extend (hm : I.Holds m) (env : Env) {names : List String} {vs : List Value}
    (hvs : ∀ v ∈ vs, I.value v) : I.Holds (m.extend env (names.zip vs)).2 :=
  Store.Keeping.extend hm env fun b hb => hvs b.2 (List.of_mem_zip hb).2

/-- A frame of placeholders. -/
theorem Holds.reserve (hm : I.Holds m) (env : Env) (bindings : List (String × Exp)) :
    I.Holds (m.extend env (bindings.map fun b => (b.1, .unspecified))).2 := by
  refine Store.Keeping.extend hm env fun b hb => ?_
  obtain ⟨_, -, rfl⟩ := List.mem_map.1 hb
  exact I.placeholder

theorem Holds.assignAll (hm : I.Holds m) (env : Env) {names : List String} {vs : List Value}
    (hvs : ∀ v ∈ vs, I.value v) : I.Holds (assignAll env (names.zip vs) m) := by
  have hpairs : ∀ b ∈ names.zip vs, I.value b.2 := fun b hb => hvs b.2 (List.of_mem_zip hb).2
  generalize names.zip vs = pairs at hpairs ⊢
  induction pairs generalizing m with
  | nil => exact hm
  | cons b pairs ih =>
    have hb := hpairs b List.mem_cons_self
    refine ih (m := m.mapStore _) ?_ fun b' hb' => hpairs b' (List.mem_cons_of_mem b hb')
    rcases m.memory.store.getD_assign? env b.1 b.2 with h | ⟨id, -, h⟩
    · simp only [State.mapStore, h]
      exact hm
    · simp only [State.mapStore, h]
      exact Store.Keeping.update hm id b.1 hb

theorem Holds.setTraceCount (hm : I.Holds m) (env : Env) (n : Number) :
    I.Holds (m.setTraceCount env n) := by
  unfold State.setTraceCount
  split
  · exact Store.Keeping.update hm _ _ (I.number n)
  · exact hm

/-- A body may be evaluated in the frame that is made for it. -/
theorem Holds.scope_body (hm : I.Holds m) (hscope : I.scope e env) {names : List String}
    {body : Exp} (hbody : (names, body) ∈ e.bodies) : I.scope body (m.inside env) :=
  I.body hscope hbody (hm.later _ (Nat.le_refl _))

theorem sameOnBoth : Trace.SameOnBoth fun _ : OneWorld => I.Both where
  console h := congrArg Machine.console h.1
  indent h := congrArg Machine.indent h.1
  withDiag := by
    rintro - m _ ⟨rfl, hm⟩ diag indent
    exact ⟨rfl, hm⟩

/-! ### Evaluation -/

theorem mem_bodies_initial {bindings : List (String × Exp)} {body : Exp} {b : String × Exp}
    (hb : b ∈ bindings) :
    (bindings.map (·.1), b.2) ∈ (Exp.bind .recursive bindings body).bodies := by
  simp only [Exp.bodies, List.mem_cons, List.mem_map]
  exact .inr ⟨b, hb, rfl⟩

section

variable {sub : Exp → Env → State → Outcome State Value}

theorem keeps_applyValue (hsub : ∀ e env m, I.Holds m → I.scope e env → I.Keeps (sub e env m))
    (call callee : Exp) {f : Value} {args : List Value} (hm : I.Holds m) (hf : I.value f)
    (hargs : ∀ a ∈ args, I.value a) : I.Keeps (applyValue sub call callee f args m) := by
  cases f with
  | closure lambda env =>
    have hmem : (lambda.formals, lambda.body) ∈ lambda.toExp.bodies := by
      simp [Lambda.toExp, Exp.bodies]
    simp only [applyValue]
    split
    · exact hsub _ _ _ (hm.extend env hargs) (hm.scope_body (I.closure.1 hf) hmem)
    · exact .fault le_rfl ⟨rfl, hm⟩
  | primitive p =>
    simp only [applyValue, applyPrimitive]
    cases h : p.run args m.console.out with
    | value v out =>
      exact .value le_rfl ⟨rfl, hm⟩ ⟨rfl, value_of_makes (Primitive.makes_run h) hargs⟩
    | fault e out => exact .fault le_rfl ⟨rfl, hm⟩
    | unfinished out => exact .unfinished le_rfl ⟨rfl, hm⟩
  | _ => exact .fault le_rfl ⟨rfl, hm⟩

/-- The frames of some sequential bindings, with more of them to come. -/
theorem agree_bindEach (hsub : ∀ e env m, I.Holds m → I.scope e env → I.Keeps (sub e env m))
    {before after : List (String × Exp)} {body : Exp} (hm : I.Holds m)
    (hscope : I.scope (.bind .sequential (before ++ after) body) env) :
    Agree I.Both (fun inner inner' => inner = inner' ∧ I.scope (.bind .sequential after body) inner)
      (bindEach sub before env m) (bindEach sub before env m) := by
  induction before generalizing env m with
  | nil => exact .value le_rfl ⟨rfl, hm⟩ ⟨rfl, hscope⟩
  | cons b bs ih =>
    have hfirst : I.scope b.2 env := I.part hscope (by simp [Exp.parts])
    have hmem : ([b.1], Exp.bind .sequential (bs ++ after) body)
        ∈ (Exp.bind .sequential (b :: bs ++ after) body).bodies := by simp [Exp.bodies]
    refine Match.andThen (hsub b.2 env m hm hfirst) ?_
    rintro - - v _ m₁ _ ⟨rfl, hm₁⟩ ⟨rfl, hv⟩
    have hextend : I.Holds (m₁.extend env ([b.1].zip [v])).2 :=
      hm₁.extend env (List.forall_mem_singleton.2 hv)
    exact ih hextend (hm₁.scope_body hscope hmem)

/-- The values of some expressions, each of which may be evaluated. -/
theorem agree_evalEach {ι : Type} {f : ι → State → Outcome State Value} {as : List ι}
    (hm : I.Holds m) (hf : ∀ a ∈ as, ∀ s, I.Holds s → I.Keeps (f a s)) :
    Agree I.Both (fun vs vs' => vs = vs' ∧ ∀ v ∈ vs, I.value v) (evalEach f as m)
      (evalEach f as m) := by
  have heach : Agree I.Both _ (evalEach f as m) (evalEach f as m) :=
    Match.evalEach (V := fun _ : OneWorld => I.Same) (fun _ hv => hv) ⟨rfl, hm⟩ ?_
  · exact heach.forget (fun _ _ _ hs => hs) fun _ vs vs' hvs => values_of_same hvs.2
  · rintro - - a ha s _ ⟨rfl, hs⟩
    exact hf a ha s hs

end

/-- One level of evaluation, from the levels below. -/
theorem eval_succ (ih : ∀ e env m, I.Holds m → I.scope e env → I.Keeps (eval l left e env m))
    (hm : I.Holds m) (hscope : I.scope e env) : I.Keeps (eval l (left + 1) e env m) := by
  have hpart : ∀ part ∈ e.parts, ∀ s, I.Holds s → I.Keeps (eval l left part env s) :=
    fun part hp s hs => ih part env s hs (I.part hscope hp)
  have hboth : ∀ part ∈ e.parts, ∀ s s', I.Both s s' →
      Agree I.Both I.Same (eval l left part env s) (eval l left part env s') := by
    rintro part hp s _ ⟨rfl, hs⟩
    exact hpart part hp s hs
  cases e with
  | literal d => exact .value le_rfl ⟨rfl, hm⟩ ⟨rfl, I.literal hscope⟩
  | var x =>
    rw [eval]
    split
    · next h => exact .value le_rfl ⟨rfl, hm⟩ ⟨rfl, Store.Keeping.get? hm (I.frames hscope) h⟩
    · exact .fault le_rfl ⟨rfl, hm⟩
  | set x e =>
    rw [eval]
    refine Match.andThen (hpart e (by simp [Exp.parts]) m hm) ?_
    rintro - - v _ m₁ _ ⟨rfl, hm₁⟩ ⟨rfl, hv⟩
    split
    · exact .value le_rfl ⟨rfl, Store.Keeping.update hm₁ _ x hv⟩ ⟨rfl, hv⟩
    · exact .fault le_rfl ⟨rfl, hm₁⟩
  | cond test yes no =>
    rw [eval]
    refine Match.andThen (hpart test (by simp [Exp.parts]) m hm) ?_
    rintro - - v _ m₁ _ ⟨rfl, hm₁⟩ ⟨rfl, -⟩
    split
    · exact hpart yes (by simp [Exp.parts]) m₁ hm₁
    · exact hpart no (by simp [Exp.parts]) m₁ hm₁
  | loop test body =>
    rw [eval]
    exact Match.evalWhile (fun _ => ⟨rfl, I.bool false⟩) (fun hv => by rw [hv.1]) l.turns
      ⟨rfl, hm⟩ (fun _ _ => hboth test (by simp [Exp.parts]))
      fun _ _ => hboth body (by simp [Exp.parts])
  | block parts =>
    rw [eval]
    exact Match.evalLast ⟨rfl, hm⟩ ⟨rfl, I.bool false⟩ fun _ _ e he => hboth e he
  | apply callee args =>
    rw [eval]
    refine Match.andThen (hpart callee (by simp [Exp.parts]) m hm) ?_
    rintro - - f _ m₁ _ ⟨rfl, hm₁⟩ ⟨rfl, hf⟩
    refine Match.andThen (agree_evalEach hm₁ fun e he => hpart e (by simp [Exp.parts, he])) ?_
    rintro - - vs _ m₂ _ ⟨rfl, hm₂⟩ ⟨rfl, hvs⟩
    refine Trace.match_around_same sameOnBoth (fun _ _ _ hv => by rw [hv.1]) ⟨rfl, hm₂⟩ ?_ ?_
    · rintro n m₃ _ ⟨rfl, hm₃⟩
      exact ⟨rfl, Holds.setTraceCount hm₃ env n⟩
    · rintro m₃ _ ⟨rfl, hm₃⟩
      exact keeps_applyValue ih _ callee hm₃ hf hvs
  | lambda label formals body => exact .value le_rfl ⟨rfl, hm⟩ ⟨rfl, I.closure.2 hscope⟩
  | bind kind bindings body =>
    cases kind with
    | plain =>
      rw [eval]
      refine Match.andThen (agree_evalEach hm fun b hb => hpart b.2 (List.mem_map_of_mem hb)) ?_
      rintro - - vs _ m₁ _ ⟨rfl, hm₁⟩ ⟨rfl, hvs⟩
      have hmem : (bindings.map (·.1), body) ∈ (Exp.bind .plain bindings body).bodies := by
        simp [Exp.bodies]
      exact ih body _ _ (hm₁.extend env hvs) (hm₁.scope_body hscope hmem)
    | sequential =>
      rw [eval]
      have hscope' : I.scope (.bind .sequential (bindings ++ []) body) env := by
        rwa [List.append_nil]
      refine Match.andThen (agree_bindEach ih hm hscope') ?_
      rintro - - inner _ m₁ _ ⟨rfl, hm₁⟩ ⟨rfl, hinner⟩
      exact ih body inner m₁ hm₁ (I.part hinner (by simp [Exp.parts]))
    | recursive =>
      rw [eval]
      split
      · exact .fault le_rfl ⟨rfl, hm⟩
      · refine Match.andThen (agree_evalEach (hm.reserve env bindings) fun b hb s hs => ?_) ?_
        · exact ih b.2 _ s hs (hm.scope_body hscope (mem_bodies_initial hb))
        · rintro - - vs _ m₁ _ ⟨rfl, hm₁⟩ ⟨rfl, hvs⟩
          exact ih body _ _ (hm₁.assignAll _ hvs) (hm.scope_body hscope List.mem_cons_self)

/-- **Evaluation keeps the invariant.** -/
theorem eval (hm : I.Holds m) (hscope : I.scope e env) (l : Limits) (left : Nat) :
    I.Keeps (eval l left e env m) := by
  induction left generalizing e env m with
  | zero => exact .fault le_rfl ⟨rfl, hm⟩
  | succ left ih => exact eval_succ (fun e env m hm hscope => ih hm hscope) hm hscope

/-! ### Evaluations inside others -/

/-- An evaluation that may begin. -/
def Admits (I : Invariant) (c : Evaluation) : Prop := I.Holds c.state ∧ I.scope c.exp c.env

theorem holds_of_eval (hm : I.Holds m) (hscope : I.scope e env)
    (h : Functional.eval l left e env m = .value v m') : I.Holds m' ∧ I.value v :=
  (eval hm hscope l left).of_value h

theorem holds_of_evalEach {ι : Type} {f : ι → State → Outcome State Value} {as : List ι}
    {vs : List Value} (hm : I.Holds m) (hf : ∀ a ∈ as, ∀ s, I.Holds s → I.Keeps (f a s))
    (h : evalEach f as m = .value vs m') : I.Holds m' ∧ ∀ v ∈ vs, I.value v := by
  have heach := agree_evalEach hm hf
  rw [h] at heach
  cases heach with
  | value _ hm' hvs => exact ⟨hm'.2, hvs.2⟩

theorem holds_of_bindEach {before after : List (String × Exp)} {body : Exp} {inner : Env}
    (hm : I.Holds m) (hscope : I.scope (.bind .sequential (before ++ after) body) env)
    (h : bindEach (Functional.eval l left) before env m = .value inner m') :
    I.Holds m' ∧ I.scope (.bind .sequential after body) inner := by
  have hbind := agree_bindEach (fun e env m hm hscope => eval hm hscope l left) hm hscope
  rw [h] at hbind
  cases hbind with
  | value _ hm' hinner => exact ⟨hm'.2, hinner.2⟩

theorem holds_of_turns {test body : Exp} {n : Nat} (hm : I.Holds m)
    (htest : I.scope test env) (hbody : I.scope body env)
    (h : Turns Value.isTrue (Functional.eval l left test env) (Functional.eval l left body env)
      n m m') : I.Holds m' :=
  h.keeps (fun _ _ _ hs hrun => (holds_of_eval hs htest hrun).1)
    (fun _ _ _ hs hrun => (holds_of_eval hs hbody hrun).1) hm

/-- A function that is applied, and its arguments. -/
theorem holds_of_applies {c : Evaluation} {f : Value} {vs : List Value} (hc : I.Admits c)
    (h : c.Applies l f vs m) : I.Holds m ∧ I.value f ∧ ∀ v ∈ vs, I.value v := by
  obtain ⟨hm, hscope⟩ := hc
  cases h with
  | @intro left callee args env m₀ m₁ m₂ _ _ _ hcallee hargs henters =>
    obtain ⟨hm₁, hf⟩ := holds_of_eval hm (I.part hscope (by simp [Exp.parts])) hcallee
    obtain ⟨hm₂, hvs⟩ := holds_of_evalEach hm₁ (fun e he s hs =>
      eval hs (I.part hscope (by simp [Exp.parts, he])) l left) hargs
    refine ⟨?_, hf, hvs⟩
    exact henters.keeps (P := fun memory => memory.store.Keeping I.frame I.value) hm₂
      fun n s hs => Holds.setTraceCount (m := s) hs env n

/-- What an evaluation starts may begin, one case for each way to start one. -/
theorem admits_of_starts {c c' : Evaluation} (hc : I.Admits c) (h : c.Starts l c') :
    I.Admits c' := by
  obtain ⟨hm, hscope⟩ := id hc
  have hpart : ∀ part ∈ c.exp.parts, I.scope part c.env := fun part hp => I.part hscope hp
  cases h with
  | value => exact ⟨hm, hpart _ (by simp [Exp.parts])⟩
  | test => exact ⟨hm, hpart _ (by simp [Exp.parts])⟩
  | branch htest =>
    refine ⟨(holds_of_eval hm (hpart _ (by simp [Exp.parts])) htest).1, ?_⟩
    dsimp only
    split
    · exact hpart _ (by simp [Exp.parts])
    · exact hpart _ (by simp [Exp.parts])
  | @again _ _ test body _ _ _ hturns =>
    have htest := hpart test (by simp [Exp.parts])
    exact ⟨holds_of_turns hm htest (hpart body (by simp [Exp.parts])) hturns, htest⟩
  | @turn _ _ test body _ _ _ _ _ hturns _ hv =>
    have htest := hpart test (by simp [Exp.parts])
    have hbody := hpart body (by simp [Exp.parts])
    exact ⟨(holds_of_eval (holds_of_turns hm htest hbody hturns) htest hv).1, hbody⟩
  | @part left before after e env _ _ _ hbefore =>
    have heach := fun e he s hs => eval (e := e) (m := s) hs (hpart e he) l left
    refine ⟨(holds_of_evalEach hm (fun e he => heach e ?_) hbefore).1, hpart e ?_⟩
    · exact List.mem_append_left _ he
    · exact List.mem_append_right _ List.mem_cons_self
  | callee => exact ⟨hm, hpart _ (by simp [Exp.parts])⟩
  | @argument left callee before after e _ _ _ _ _ _ hcallee hbefore =>
    have hm₁ := (holds_of_eval hm (hpart callee (by simp [Exp.parts])) hcallee).1
    refine ⟨(holds_of_evalEach hm₁ (fun e he s hs => eval hs (hpart e ?_) l left) hbefore).1,
      hpart e (by simp [Exp.parts])⟩
    simp [Exp.parts, he]
  | @body _ _ _ _ env' _ _ lambda _ happlies _ =>
    obtain ⟨hm', hf, hvs⟩ := holds_of_applies hc happlies
    have hmem : (lambda.formals, lambda.body) ∈ lambda.toExp.bodies := List.mem_cons_self
    exact ⟨hm'.extend env' hvs, hm'.scope_body (I.closure.1 hf) hmem⟩
  | @initial left before after b _ _ _ _ _ hbefore =>
    refine ⟨(holds_of_evalEach hm (fun b hb s hs => eval hs (hpart b.2 ?_) l left) hbefore).1,
      hpart b.2 (by simp [Exp.parts])⟩
    exact List.mem_map_of_mem (List.mem_append_left _ hb)
  | @inside left bindings body env _ _ _ hvs =>
    obtain ⟨hm', hvs⟩ := holds_of_evalEach hm
      (fun b hb s hs => eval hs (hpart b.2 (List.mem_map_of_mem hb)) l left) hvs
    exact ⟨hm'.extend env hvs, hm'.scope_body hscope List.mem_cons_self⟩
  | nextInitial hbefore =>
    obtain ⟨hm', hinner⟩ := holds_of_bindEach hm hscope hbefore
    exact ⟨hm', I.part hinner List.mem_cons_self⟩
  | @insideAll _ bindings body env _ _ _ hinner =>
    have hall : I.scope (.bind .sequential (bindings ++ []) body) env := by
      rwa [List.append_nil]
    obtain ⟨hm', hinner⟩ := holds_of_bindEach hm hall hinner
    exact ⟨hm', I.part hinner List.mem_cons_self⟩
  | @closed left before after b _ env m _ _ _ hbefore =>
    have hinitial : ∀ b' ∈ before ++ b :: after, I.scope b'.2 (m.inside env) :=
      fun b' hb' => hm.scope_body hscope (mem_bodies_initial hb')
    refine ⟨(holds_of_evalEach (hm.reserve env _) (fun b' hb' s hs => eval hs ?_ l left)
      hbefore).1, hinitial b (by simp)⟩
    exact hinitial b' (List.mem_append_left _ hb')
  | @insideOwn left bindings _ env m _ _ _ hvs =>
    obtain ⟨hm', hvs⟩ := holds_of_evalEach (hm.reserve env bindings)
      (fun b hb s hs => eval hs (hm.scope_body hscope (mem_bodies_initial hb)) l left) hvs
    exact ⟨hm'.assignAll _ hvs, hm.scope_body hscope List.mem_cons_self⟩

/-- **Every evaluation in the course of one that may begin may begin.** -/
theorem admits_of_includes {c c' : Evaluation} (hc : I.Admits c) (h : c.Includes l c') :
    I.Admits c' := by
  induction h with
  | refl => exact hc
  | tail _ hstarts ih => exact admits_of_starts ih hstarts

end Invariant

end Primer.Functional
