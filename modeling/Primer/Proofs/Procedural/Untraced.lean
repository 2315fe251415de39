/-
Primer/Proofs/Procedural/Untraced.lean

The procedural language without its trace.  As in the functional language, an
expression that does not mention the trace count, with a function table that
does not either, is evaluated as if there were no trace
(`match_eval_untraced`).

A function name is not a variable, so it does not matter whether a function has
the name of the trace count.
-/
import Primer.Procedural.Interpreter
import Primer.Proofs.Frames
import Primer.Proofs.Untraced

namespace Primer.Procedural

open Outcome

/-! ### The variables of a program -/

namespace Exp

mutual

/-- The variables in an expression, with the targets of assignments. -/
def names : Exp → List String
  | literal _ => []
  | var x => [x]
  | set x e => x :: names e
  | cond test yes no => names test ++ names yes ++ names no
  | loop test body => names test ++ names body
  | block parts => namesEach parts
  | call _ args => namesEach args

def namesEach : List Exp → List String
  | [] => []
  | e :: es => names e ++ namesEach es

end

theorem mem_namesEach {x : String} {e : Exp} {es : List Exp} (he : e ∈ es) (hx : x ∈ e.names) :
    x ∈ namesEach es := by
  induction es with
  | nil => cases he
  | cons e' es ih =>
    rw [namesEach, List.mem_append]
    rcases List.mem_cons.1 he with rfl | he
    · exact .inl hx
    · exact .inr (ih he)

end Exp

/-- The variables of a function: its parameters, its local variables and those in
its body. -/
def Procedure.names (p : Procedure) : List String := p.formals ++ p.locals ++ p.body.names

/-! ### The memory without the trace count -/

def Scopes.untraced (s : Scopes) : Scopes :=
  ⟨s.locals.without Trace.countName, s.formals.without Trace.countName⟩

theorem untraced_ofCall {p : Procedure} (hp : Trace.countName ∉ p.names) (args : List Number) :
    (Scopes.ofCall p args).untraced = .ofCall p args := by
  simp only [Procedure.names, List.mem_append, not_or] at hp
  have hlocals : (Bindings.ofList (p.locals.map fun x => (x, Number.zero))).has Trace.countName
      = false := by
    rw [Bindings.has_ofList]
    simpa using hp.1.2
  have hformals : (Bindings.ofList (p.formals.zip args)).has Trace.countName = false := by
    rw [Bindings.has_ofList, List.contains_eq_mem]
    refine decide_eq_false fun hmem => ?_
    obtain ⟨b, hb, hbx⟩ := List.mem_map.1 hmem
    exact hp.1.1 (hbx ▸ (List.of_mem_zip hb).1)
  simp only [Scopes.untraced, Scopes.ofCall, Bindings.without_eq_self hlocals,
    Bindings.without_eq_self hformals]

namespace Memory

/-- The memory in which no scope binds the trace count. -/
def untraced (m : Memory) : Memory :=
  ⟨m.scopes.untraced, m.globals.without Trace.countName, m.functions⟩

variable {x : String} (m : Memory)

theorem get?_untraced_self : m.untraced.get? Trace.countName = none := by
  simp only [get?, untraced, Scopes.untraced, Bindings.get?_without_self]

theorem get?_untraced_ne (h : x ≠ Trace.countName) : m.untraced.get? x = m.get? x := by
  simp only [get?, untraced, Scopes.untraced, Bindings.get?_without_ne h]

theorem assign?_untraced (h : x ≠ Trace.countName) (n : Number) :
    m.untraced.assign? x n = (m.assign? x n).map untraced := by
  unfold assign?
  simp only [untraced, Scopes.untraced, Bindings.has_without_ne h]
  split
  · simp only [Option.map_some, untraced, Scopes.untraced, Bindings.without_set_ne h]
  · split
    · simp only [Option.map_some, untraced, Scopes.untraced, Bindings.without_set_ne h]
    · split
      · simp only [Option.map_some, untraced, Scopes.untraced, Bindings.without_set_ne h]
      · rfl

theorem untraced_setTraceCount (n : Number) : (m.setTraceCount n).untraced = m.untraced := by
  unfold setTraceCount assign?
  split
  · simp only [Option.getD_some, untraced, Scopes.untraced, Bindings.without_set_self]
  · split
    · simp only [Option.getD_some, untraced, Scopes.untraced, Bindings.without_set_self]
    · split
      · simp only [Option.getD_some, untraced, Bindings.without_set_self]
      · rfl

/-- Assignments leave the function table as it is. -/
theorem functions_assign? {m m' : Memory} {n : Number} (h : m.assign? x n = some m') :
    m'.functions = m.functions := by
  unfold assign? at h
  split at h
  · cases h; rfl
  · split at h
    · cases h; rfl
    · split at h <;> cases h; rfl

/-- No function that can be called mentions the trace count. -/
def Unaware (m : Memory) : Prop :=
  ∀ name p, m.functions.get? name = some (.procedure p) → Trace.countName ∉ p.names

end Memory

/-! ### Evaluation without the trace -/

/-- A state and what is left of it without the trace. -/
abbrev State.Hides : State → State → Prop := Machine.Hides Memory.untraced Memory.Unaware

variable {m m' : State}

theorem match_inScopes {scopes : Scopes} (hscopes : scopes.untraced = scopes)
    (hm : m.Hides m') {run run' : State → Outcome State Number}
    (hrun : ∀ s s', State.Hides s s' →
      Agree State.Hides Eq (run s) (run' s')) :
    Agree State.Hides Eq (m.inScopes scopes run)
      (m'.inScopes scopes run') := by
  obtain ⟨rfl, hw, hgood⟩ := hm
  unfold State.inScopes
  refine Match.mapState (S := fun _ => State.Hides) ?_ (hrun _ _ ⟨?_, hw, hgood⟩)
  · rintro w s t ⟨rfl, hws, hgoods⟩
    exact ⟨rfl, hws, hgoods⟩
  · simp only [Machine.untraced, Memory.untraced, hscopes]

theorem match_applyFunction {body : Exp → State → Outcome State Number}
    (hbody : ∀ e s s', State.Hides s s' → Trace.countName ∉ e.names →
      Agree State.Hides Eq (body e s) (body e s'))
    {f : Function} (hf : ∀ p, f = .procedure p → Trace.countName ∉ p.names) (call : Exp)
    (args : List Number) (hm : m.Hides m') :
    Agree State.Hides Eq (applyFunction body call f args m)
      (applyFunction body call f args m') := by
  cases f with
  | procedure p =>
    have hp := hf p rfl
    have hpbody : Trace.countName ∉ p.body.names := fun hx =>
      hp (List.mem_append_right _ hx)
    simp only [applyFunction]
    split
    · exact match_inScopes (untraced_ofCall hp args) hm fun s s' hs => hbody p.body s s' hs hpbody
    · exact .fault le_rfl hm
  | primitive p =>
    have hout : m'.console.out = m.console.out := by rw [hm.eq]; rfl
    simp only [applyFunction, applyPrimitive, hout]
    refine Match.mapError (Match.mapState ?_ (Agree.refl (p.run args m.console.out)))
    rintro - out _ rfl
    obtain ⟨rfl, hw, hgood⟩ := hm
    exact ⟨rfl, hw, hgood⟩

/-- One level of evaluation, from the levels below. -/
theorem match_eval_succ (l : Limits) {left : Nat}
    (ih : ∀ e s s', State.Hides s s' → Trace.countName ∉ e.names →
      Agree State.Hides Eq (eval l left e s) (eval l left e s'))
    {e : Exp} (hm : m.Hides m') (he : Trace.countName ∉ e.names) :
    Agree State.Hides Eq (eval l (left + 1) e m)
      (eval l (left + 1) e m') := by
  cases e with
  | literal n => exact .value le_rfl hm rfl
  | var x =>
    have hx : x ≠ Trace.countName := fun h => he (by simp [Exp.names, h])
    have hget : m'.memory.get? x = m.memory.get? x := by
      rw [hm.eq]
      exact m.memory.get?_untraced_ne hx
    simp only [eval, hget]
    split
    · exact .value le_rfl hm rfl
    · exact .fault le_rfl hm
  | set x e =>
    simp only [Exp.names, List.mem_cons, not_or] at he
    refine (ih e m m' hm he.2).andThen ?_
    rintro - - n - s s' hs rfl
    have hassign : s'.memory.assign? x n = (s.memory.assign? x n).map Memory.untraced := by
      rw [hs.eq]
      exact s.memory.assign?_untraced (Ne.symm he.1) n
    rw [hassign]
    cases hx : s.memory.assign? x n with
    | none => exact .fault le_rfl hs
    | some memory =>
      obtain ⟨rfl, hw, hgood⟩ := hs
      refine .value le_rfl ⟨rfl, hw, ?_⟩ rfl
      -- an assignment leaves the functions alone
      intro name p hp
      have hfun : memory.functions = s.memory.functions := Memory.functions_assign? hx
      exact hgood name p (by rw [← hp, show memory.untraced.functions = _ from hfun]; rfl)
  | cond test yes no =>
    simp only [Exp.names, List.mem_append, not_or] at he
    refine (ih test m m' hm he.1.1).andThen ?_
    rintro - - n - s s' hs rfl
    split
    · exact ih yes s s' hs he.1.2
    · exact ih no s s' hs he.2
  | loop test body =>
    simp only [Exp.names, List.mem_append, not_or] at he
    exact Match.evalWhile (fun _ => rfl) (fun h => congrArg isTrue h) l.turns hm
      (fun _ _ s s' hs => ih test s s' hs he.1) fun _ _ s s' hs => ih body s s' hs he.2
  | block parts =>
    have hparts : ∀ e ∈ parts, Trace.countName ∉ e.names := fun e hmem hx =>
      he (Exp.mem_namesEach hmem hx)
    exact Match.evalLast hm rfl fun _ _ e hmem s s' hs => ih e s s' hs (hparts e hmem)
  | call function args =>
    have hfun : m'.memory.functions = m.memory.functions := by rw [hm.eq]; rfl
    have hargs : ∀ e ∈ args, Trace.countName ∉ e.names := fun e hmem hx =>
      he (Exp.mem_namesEach hmem hx)
    simp only [eval, hfun]
    split
    · exact .fault le_rfl hm
    · next f hf =>
      refine (Match.evalEach (V := fun _ : OneWorld => Eq) (w := .only) (fun _ h => h) hm
        fun _ _ e hmem s s' hs => ih e s s' hs (hargs e hmem)).andThen ?_
      rintro - - ns ns' s s' hs ⟨-, hns⟩
      obtain rfl : ns = ns' := by rwa [List.forall₂_eq_eq_eq] at hns
      -- no count on the right, so the call is not traced there
      have hcount : s'.memory.get? Trace.countName = none := by
        rw [hs.eq]
        exact s.memory.get?_untraced_self
      have hclean : ∀ p, f = .procedure p → Trace.countName ∉ p.names := by
        rintro p rfl
        exact hm.good function p (by rw [hfun, hf])
      rw [hcount]
      refine Trace.match_around ?_ hs fun t t' ht => match_applyFunction ih hclean _ ns ht
      exact fun n t => ⟨rfl, t.memory.untraced_setTraceCount n⟩

/-- The evaluation of an expression that does not mention the trace count, which is
`n`, is its evaluation without the trace. -/
theorem match_eval_untraced {e : Exp} (he : Trace.countName ∉ e.names) (hm : m.memory.Unaware)
    (hw : m.console.diag.Open) (l : Limits) (left : Nat) (n : Number) :
    Agree State.Hides Eq
      (eval l left e (m.defineGlobal Trace.countName n))
      (eval l left e (m.untraced Memory.untraced)) := by
  have hstart : State.Hides (m.defineGlobal Trace.countName n) (m.untraced Memory.untraced) := by
    refine ⟨?_, hw, hm⟩
    simp only [Machine.untraced, Memory.untraced, State.defineGlobal, Bindings.without_set_self]
  -- the induction goes through states that are not of this form
  generalize m.defineGlobal Trace.countName n = s at hstart
  generalize m.untraced Memory.untraced = s' at hstart
  induction left generalizing e s s' with
  | zero => exact .fault le_rfl hstart
  | succ left ih => exact match_eval_succ l (fun e s s' hs he => ih he s s' hs) hstart he

end Primer.Procedural
