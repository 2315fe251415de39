/-
Primer/Proofs/Procedural/Spending.lean

The procedural language spends its trace count.

As in the functional language, `calls` are the calls that an evaluation makes.  A call
runs in scopes of its own, so the trace count is found in the globals as long as no
scope binds it (`Memory.Counting`).

Which functions an evaluation can call does not depend on what it computes: those that
are named in the expression, and those named in the bodies of these, and so on
(`Memory.Callable`).  Others in the table may well mention the trace count.
-/
import Primer.Procedural.Interpreter
import Primer.Proofs.Procedural.Untraced
import Primer.Proofs.Spending

namespace Primer.Procedural

open Outcome

/-! ### The calls of an evaluation -/

/-- The calls in the body of a function that is applied. -/
def callsInside (calls : Exp → State → Calls) (f : Function) (args : List Number) (m : State) :
    Calls :=
  match f with
  | .procedure p =>
      if p.formals.length = args.length then
        calls p.body { m with memory := { m.memory with scopes := .ofCall p args } }
      else .nil
  | .primitive _ => .nil

/-- The calls that an evaluation makes: every call of a function that exists and whose
arguments have values. -/
def calls (limits : Limits) : Nat → Exp → State → Calls
  | 0, _, _ => .nil
  | left + 1, exp, m =>
      match exp with
      | .literal _ => .nil
      | .var _ => .nil
      | .set _ e => calls limits left e m
      | .cond test yes no =>
          calls limits left test m ++ (eval limits left test m).callsThen fun n m =>
            if isTrue n then calls limits left yes m else calls limits left no m
      | .loop test body =>
          callsWhile isTrue (eval limits left test) (eval limits left body)
            (calls limits left test) (calls limits left body) limits.turns m
      | .block parts => callsEach (eval limits left) (calls limits left) parts m
      | .call function args =>
          match m.memory.functions.get? function with
          | none => .nil
          | some f =>
              callsEach (eval limits left) (calls limits left) args m ++
                (evalEach (eval limits left) args m).callsThen fun ns m =>
                  Trace.callsAround (m.memory.get? Trace.countName)
                    (fun n m => { m with memory := m.memory.setTraceCount n })
                    (fun _ => Trace.callText function (ns.map Number.text)) Number.text
                    (applyFunction (eval limits left) exp f ns)
                    (callsInside (calls limits left) f ns) m

/-! ### The functions that an evaluation can call -/

namespace Exp

mutual

/-- The functions that are named in an expression. -/
def called : Exp → List String
  | literal _ => []
  | var _ => []
  | set _ e => called e
  | cond test yes no => called test ++ called yes ++ called no
  | loop test body => called test ++ called body
  | block parts => calledEach parts
  | call function args => function :: calledEach args

def calledEach : List Exp → List String
  | [] => []
  | e :: es => called e ++ calledEach es

end

/-- The expressions directly inside an expression. -/
def parts : Exp → List Exp
  | literal _ => []
  | var _ => []
  | set _ e => [e]
  | cond test yes no => [test, yes, no]
  | loop test body => [test, body]
  | block parts => parts
  | call _ args => args

theorem mem_calledEach {f : String} {e : Exp} {es : List Exp} (he : e ∈ es) (hf : f ∈ e.called) :
    f ∈ calledEach es := by
  induction es with
  | nil => cases he
  | cons e' es ih =>
    rw [calledEach, List.mem_append]
    rcases List.mem_cons.1 he with rfl | he
    · exact .inl hf
    · exact .inr (ih he)

/-- What is in a part of an expression is in the expression. -/
theorem part_subset {e part : Exp} (h : part ∈ e.parts) :
    (∀ x ∈ part.names, x ∈ e.names) ∧ ∀ f ∈ part.called, f ∈ e.called := by
  cases e with
  | literal n => cases h
  | var x => cases h
  | set x e =>
    obtain rfl := List.mem_singleton.1 h
    exact ⟨fun y hy => List.mem_cons_of_mem x hy, fun f hf => hf⟩
  | cond test yes no =>
    simp only [parts, List.mem_cons, List.not_mem_nil, or_false] at h
    rcases h with rfl | rfl | rfl
    all_goals exact ⟨fun x hx => by simp [names, hx], fun f hf => by simp [called, hf]⟩
  | loop test body =>
    simp only [parts, List.mem_cons, List.not_mem_nil, or_false] at h
    rcases h with rfl | rfl
    all_goals exact ⟨fun x hx => by simp [names, hx], fun f hf => by simp [called, hf]⟩
  | block parts => exact ⟨fun x => mem_namesEach h, fun f => mem_calledEach h⟩
  | call function args =>
    exact ⟨fun x => mem_namesEach h, fun f hf => List.mem_cons_of_mem _ (mem_calledEach h hf)⟩

end Exp

/-- The functions that the evaluation of an expression can call, directly or through
others. -/
inductive Memory.Callable (m : Memory) (e : Exp) : String → Prop
  | direct {f : String} : f ∈ e.called → Callable m e f
  | through {f g : String} {p : Procedure} : Callable m e f →
      m.functions.get? f = some (.procedure p) → g ∈ p.body.called → Callable m e g

/-! ### Where the trace count is -/

variable {F : String → Prop} {n : Number}

/-- An expression that does not mention the trace count and calls functions in `F` only. -/
structure Blind (F : String → Prop) (e : Exp) : Prop where
  names : Trace.countName ∉ e.names
  called : ∀ f ∈ e.called, F f

/-- No scope of a call binds the trace count. -/
structure Scopes.Blind (s : Scopes) : Prop where
  locals : s.locals.has Trace.countName = false
  formals : s.formals.has Trace.countName = false

/-- The trace count is `n`.  It is one of the globals and bound nowhere else, and no
function in `F` mentions it. -/
structure Memory.Counting (F : String → Prop) (n : Number) (m : Memory) : Prop where
  scopes : m.scopes.Blind
  count : m.globals.get? Trace.countName = some n
  functions : ∀ f p, F f → m.functions.get? f = some (.procedure p) →
    Trace.countName ∉ p.names ∧ ∀ g ∈ p.body.called, F g

theorem Blind.part {e part : Exp} (h : Blind F e) (hpart : part ∈ e.parts) : Blind F part := by
  obtain ⟨hnames, hcalled⟩ := Exp.part_subset hpart
  exact ⟨fun hx => h.names (hnames _ hx), fun f hf => h.called f (hcalled f hf)⟩

theorem Scopes.blind_ofCall {p : Procedure} (hp : Trace.countName ∉ p.names)
    (args : List Number) : (Scopes.ofCall p args).Blind := by
  have h := untraced_ofCall hp args
  rw [← h]
  exact ⟨Bindings.has_eq_false_iff.2 (Bindings.get?_without_self _ _),
    Bindings.has_eq_false_iff.2 (Bindings.get?_without_self _ _)⟩

namespace Memory.Counting

variable {m m' : Memory} {x : String}

theorem get? (hm : m.Counting F n) : m.get? Trace.countName = some n := by
  rw [Memory.get?, Bindings.has_eq_false_iff.1 hm.scopes.locals,
    Bindings.has_eq_false_iff.1 hm.scopes.formals, hm.count]

theorem inScopes (hm : m.Counting F n) {scopes : Scopes} (hscopes : scopes.Blind) :
    Memory.Counting F n { m with scopes := scopes } :=
  ⟨hscopes, hm.count, hm.functions⟩

theorem assign (hm : m.Counting F n) (hx : x ≠ Trace.countName) {k : Number}
    (h : m.assign? x k = some m') : m'.Counting F n := by
  have hother : ∀ bs : Bindings Number,
      (bs.set x k).has Trace.countName = bs.has Trace.countName := by
    intro bs
    rw [Bindings.has_set]
    simp [hx]
  unfold Memory.assign? at h
  split at h
  · cases h
    exact ⟨⟨(hother _).trans hm.scopes.locals, hm.scopes.formals⟩, hm.count, hm.functions⟩
  · split at h
    · cases h
      exact ⟨⟨hm.scopes.locals, (hother _).trans hm.scopes.formals⟩, hm.count, hm.functions⟩
    · split at h
      · cases h
        exact ⟨hm.scopes, (Bindings.get?_set_ne hx _ _).trans hm.count, hm.functions⟩
      · cases h

theorem setTraceCount (hm : m.Counting F n) (k : Number) : (m.setTraceCount k).Counting F k := by
  have hglobal : m.globals.has Trace.countName = true := by
    rw [Bindings.has_eq_isSome, hm.count]
    rfl
  simp only [Memory.setTraceCount, Memory.assign?, hm.scopes.locals, hm.scopes.formals, hglobal,
    Bool.false_eq_true, if_false, if_true, Option.getD_some]
  exact ⟨hm.scopes, Bindings.get?_set_self _ _ _, hm.functions⟩

end Memory.Counting

/-! ### Evaluation -/

variable {m : State}

/-- An evaluation that makes the calls `cs` from the state `m`. -/
abbrev SpendsBlind (F : String → Prop) (n : Number) (cs : Calls) (m : State) :
    Outcome State Number → Prop :=
  SpendsFrom (Memory.Counting F) (fun _ => True) n cs m

theorem spends_applyFunction {body : Exp → State → Outcome State Number}
    {inBody : Exp → State → Calls}
    (hbody : ∀ e k m, Blind F e → m.Shows (Memory.Counting F) k →
      SpendsBlind F k (inBody e m) m (body e m))
    {f : Function} (hf : ∀ p, f = .procedure p →
      Trace.countName ∉ p.names ∧ ∀ g ∈ p.body.called, F g)
    (call : Exp) (args : List Number) (hm : m.Shows (Memory.Counting F) n) :
    SpendsBlind F n (callsInside inBody f args m) m (applyFunction body call f args m) := by
  cases f with
  | procedure p =>
    obtain ⟨hnames, hcalled⟩ := hf p rfl
    have hp : Blind F p.body := ⟨fun hx => hnames (List.mem_append_right _ hx), hcalled⟩
    simp only [applyFunction, callsInside]
    split
    · have hcall := hbody p.body n { m with memory := { m.memory with scopes := .ofCall p args } }
        hp ⟨hm.memory.inScopes (Scopes.blind_ofCall hnames args), hm.writable⟩
      -- afterwards the caller has its own scopes back
      exact hcall.mapState (fun k s hs => Memory.Counting.inScopes hs hm.memory.scopes)
        (fun _ => rfl) fun _ => rfl
    · exact .quietFault hm
  | primitive p =>
    have hprinted : ∀ out, (m.withOut out).Shows (Memory.Counting F) n :=
      fun out => ⟨hm.memory, hm.writable⟩
    simp only [applyFunction, applyPrimitive, callsInside]
    cases p.run args m.console.out with
    | value k out => exact Spends.quiet (hprinted out) trivial
    | fault e out => exact Spends.quietFault (hprinted out)
    | unfinished out => exact .unfinished (.nil (hprinted out))

/-- One level of evaluation, from the levels below. -/
theorem spends_eval_succ (l : Limits) {left : Nat}
    (ih : ∀ e k m, Blind F e → m.Shows (Memory.Counting F) k →
      SpendsBlind F k (calls l left e m) m (eval l left e m))
    {e : Exp} (he : Blind F e) (hm : m.Shows (Memory.Counting F) n) :
    SpendsBlind F n (calls l (left + 1) e m) m (eval l (left + 1) e m) := by
  have hpart : ∀ part ∈ e.parts, ∀ k s, s.Shows (Memory.Counting F) k →
      SpendsBlind F k (calls l left part s) s (eval l left part s) :=
    fun part hp k s hs => ih part k s (he.part hp) hs
  cases e with
  | literal k => exact .quiet hm trivial
  | var x =>
    simp only [eval, calls]
    split
    · exact .quiet hm trivial
    · exact .quietFault hm
  | set x e =>
    have hx : x ≠ Trace.countName := fun h => he.names (by simp [Exp.names, h])
    refine (hpart e (by simp [Exp.parts]) n m hm).andQuietly fun k j s _ hs => ?_
    split
    · next memory h =>
      exact Spends.quiet (m := { s with memory := memory }) ⟨hs.memory.assign hx h, hs.writable⟩
        trivial
    · exact .quietFault hs
  | cond test yes no =>
    refine (hpart test (by simp [Exp.parts]) n m hm).andThen fun k j s _ hs => ?_
    split
    · exact hpart yes (by simp [Exp.parts]) j s hs
    · exact hpart no (by simp [Exp.parts]) j s hs
  | loop test body =>
    exact .evalWhile trivial (hpart test (by simp [Exp.parts]))
      (hpart body (by simp [Exp.parts])) l.turns hm
  | block parts => exact .evalLast hm trivial hpart
  | call function args =>
    simp only [eval, calls]
    cases hget : m.memory.functions.get? function with
    | none => exact .quietFault hm
    | some f =>
      have hf : ∀ p, f = .procedure p → Trace.countName ∉ p.names ∧ ∀ g ∈ p.body.called, F g := by
        rintro p rfl
        exact hm.memory.functions function p (he.called function List.mem_cons_self) hget
      refine (Spends.evalEach hm hpart).andThen fun ns j s _ hs => ?_
      refine Trace.spends_around hs hs.memory.get? (fun k t ht => ?_) (fun _ _ => rfl)
        fun k t ht => spends_applyFunction ih hf _ ns ht
      exact Memory.Counting.setTraceCount (ht ▸ hs.memory) k

/-- **An evaluation spends the trace count**, one for each call that it makes. -/
theorem spends_eval (l : Limits) (left : Nat) {e : Exp} (he : Blind F e)
    (hm : m.Shows (Memory.Counting F) n) :
    SpendsBlind F n (calls l left e m) m (eval l left e m) := by
  induction left generalizing e n m with
  | zero => exact .quietFault hm
  | succ left ih => exact spends_eval_succ l (fun e k m he hm => ih he hm) he hm

/-! ### Expressions that leave the trace count alone -/

/-- The trace count is `n`, and an expression and the functions that it can call leave it
to the trace: they do not mention it, and no scope binds it. -/
structure Metered (n : Number) (e : Exp) (m : State) : Prop where
  exp : Trace.countName ∉ e.names
  functions : ∀ f p, m.memory.Callable e f → m.memory.functions.get? f = some (.procedure p) →
    Trace.countName ∉ p.names
  count : m.global? Trace.countName = some n
  scopes : m.memory.scopes.Blind

theorem Metered.spent {e : Exp} (h : Metered n e m) (hw : m.console.diag.Open)
    (l : Limits) (left : Nat) :
    (eval l left e m).state.Spent (Memory.Counting (m.memory.Callable e)) n (calls l left e m)
      m.console.diag.text m.indent := by
  have hblind : Blind (m.memory.Callable e) e := ⟨h.exp, fun f hf => .direct hf⟩
  have hcounting : m.memory.Counting (m.memory.Callable e) n :=
    ⟨h.scopes, h.count, fun f p hf hp => ⟨h.functions f p hf hp, fun g hg => .through hf hp hg⟩⟩
  exact (spends_eval l left hblind ⟨hcounting, hw⟩).spent

end Primer.Procedural
