/-
Primer/Proofs/Procedural/Journal.lean

Calls of the procedural language.

`watch` evaluates as `eval` does and notes every call of a function that is not
primitive: the function, its arguments, and the scopes in which its body begins.
A definition refuses a function that repeats a formal parameter, so all functions
in the table have distinct ones; in the course of any session each formal
parameter of a call holds its own argument (`argumentsKept_runTexts`).
-/
import Primer.Proofs.Frames
import Primer.Proofs.Journal
import Primer.Proofs.Procedural.Untraced
import Primer.Proofs.Sessions

namespace Primer.Procedural

open Outcome

/-! ### Evaluation with a journal -/

/-- A call, with the scopes in which the body of the function begins. -/
structure Call where
  procedure : Procedure
  args : List Number
  scopes : Scopes

/-- A state with a journal of calls. -/
abbrev Watched := Machine (Journaled Memory Call)

/-- Run the body of a function in scopes of its own, then come back to those of now. -/
def watchCall (body : Exp → Watched → Outcome Watched Number) (p : Procedure)
    (args : List Number) (r : Watched) : Outcome Watched Number :=
  let m : State := r.plain
  let inside : State := { m with memory := { m.memory with scopes := .ofCall p args } }
  (body p.body ((r.withPlain inside).note ⟨p, args, inside.memory.scopes⟩)).mapState fun r =>
    r.withPlain { r.plain with memory := { r.plain.memory with scopes := m.memory.scopes } }

/-- Apply an entry of the function table. -/
def watchApply (body : Exp → Watched → Outcome Watched Number) (call : Exp) (f : Function)
    (args : List Number) (r : Watched) : Outcome Watched Number :=
  match f with
  | .procedure p =>
      if p.formals.length = args.length then watchCall body p args r
      else .fault (.arity p.formals.length args.length (some call.text)) r
  | .primitive p => r.unnoted (applyPrimitive p args call)

/-- Overwrite the trace count. -/
def watchTraceCount (n : Number) (r : Watched) : Watched :=
  r.withPlain { r.plain with memory := r.plain.memory.setTraceCount n }

/-- Evaluate an expression in the scopes of now, with so many levels left. -/
def watch (limits : Limits) : Nat → Exp → Watched → Outcome Watched Number
  | 0, _, r => .fault (.tooDeep limits.depth) r
  | left + 1, exp, r =>
      match exp with
      | .literal n => .value n r
      | .var x =>
          match r.plain.memory.get? x with
          | some n => .value n r
          | none => .fault (.unknownVariable x) r
      | .set x e =>
          (watch limits left e r).andThen fun n r =>
            match r.plain.memory.assign? x n with
            | some memory => .value n (r.withPlain { r.plain with memory := memory })
            | none => .fault (.unknownTarget x exp.text) r
      | .cond test yes no =>
          (watch limits left test r).andThen fun n r =>
            if isTrue n then watch limits left yes r else watch limits left no r
      | .loop test body =>
          evalWhile isTrue Number.zero (watch limits left test) (watch limits left body)
            limits.turns r
      | .block parts => evalLast (watch limits left) Number.zero parts r
      | .call function args =>
          match r.plain.memory.functions.get? function with
          | none => .fault (.undefinedFunction function exp.text) r
          | some f =>
              (evalEach (watch limits left) args r).andThen fun ns r =>
                Trace.around (r.plain.memory.get? Trace.countName) watchTraceCount
                  (fun _ => Trace.callText function (ns.map Number.text)) Number.text
                  (watchApply (watch limits left) exp f ns) r

/-- Evaluate an expression at top level, outside of any call. -/
def watchGlobal (limits : Limits) (e : Exp) (r : Watched) : Outcome Watched Number :=
  let m : State := r.plain
  (watch limits limits.depth e
      (r.withPlain { m with memory := { m.memory with scopes := .none } })).mapState fun r =>
    r.withPlain { r.plain with memory := { r.plain.memory with scopes := m.memory.scopes } }

/-- Carry out a definition. -/
def watchDefine (limits : Limits) (echo : Echo) (d : Definition Exp Procedure) (r : Watched) :
    Outcome Watched Unit :=
  match d with
  | .val name e =>
      (watchGlobal limits e r).andThen fun n r =>
        r.unnoted fun m => (State.defineGlobal m name n).echo echo fun _ => n.text
  | .function name p =>
      match repeated? p.formals with
      | some formal => .fault (.repeatedParameter formal name) r
      | none => r.unnoted fun m => (State.defineFunction m name p).echo echo fun _ => name
  | .exp e =>
      (watchGlobal limits e r).andThen fun n r =>
        r.unnoted fun m => (State.defineGlobal m itName n).echo echo fun _ => n.text

/-- The procedural language with a journal of calls. -/
def watchedTwin : Twin Language.procedural where
  Memory := Journaled Memory Call
  define := watchDefine
  eval := watchGlobal
  initial := ⟨.initial, []⟩
  view := Journaled.memory

/-! ### What a call says -/

/-- Each formal parameter of a call holds its own argument. -/
def Call.KeepsArguments (c : Call) : Prop :=
  Bindings.BindsEach c.procedure.formals c.args c.scopes.formals

/-- No function in the table repeats a formal parameter. -/
def Memory.DistinctFormals (m : Memory) : Prop :=
  ∀ name p, m.functions.get? name = some (.procedure p) → p.formals.Nodup

/-- A state with a journal beside the same state without one. -/
structure Watches (r : Watched) (m : State) : Prop where
  plain : r.plain = m
  distinct : m.memory.DistinctFormals
  calls : ∀ c ∈ r.journal, c.KeepsArguments

variable {r : Watched} {m : State}

/-- What depends on the function table only. -/
theorem Watches.of_functions_eq {r' : Watched} {m' : State} (h : Watches r m)
    (hplain : r'.plain = m') (hjournal : r'.journal = r.journal)
    (hfunctions : m'.memory.functions = m.memory.functions) : Watches r' m' := by
  refine ⟨hplain, ?_, ?_⟩
  · unfold Memory.DistinctFormals
    rw [hfunctions]
    exact h.distinct
  · rw [hjournal]
    exact h.calls

theorem Watches.sameOnBoth : Trace.SameOnBoth fun _ : OneWorld => Watches where
  console h := congrArg Machine.console h.plain
  indent h := congrArg Machine.indent h.plain
  withDiag h diag indent := by
    refine h.of_functions_eq ?_ rfl rfl
    rw [← h.plain]
    rfl

theorem functions_setTraceCount (n : Number) (m : Memory) :
    (m.setTraceCount n).functions = m.functions := by
  unfold Memory.setTraceCount
  cases h : m.assign? Trace.countName n with
  | none => rfl
  | some m' => exact Memory.functions_assign? h

/-! ### Evaluation -/

/-- Back in the scopes of before. -/
theorem Watches.leave (h : Watches r m) (scopes : Scopes) :
    Watches (r.withPlain { r.plain with memory := { r.plain.memory with scopes := scopes } })
      { m with memory := { m.memory with scopes := scopes } } := by
  obtain ⟨rfl, hdistinct, hcalls⟩ := h
  exact ⟨rfl, hdistinct, hcalls⟩

theorem agree_watchCall {body : Exp → Watched → Outcome Watched Number}
    {body' : Exp → State → Outcome State Number}
    (hbody : ∀ e r m, Watches r m → Agree Watches Eq (body e r) (body' e m)) {p : Procedure}
    (hp : p.formals.Nodup) {args : List Number} (hlen : p.formals.length = args.length)
    (hm : Watches r m) :
    Agree Watches Eq (watchCall body p args r)
      (m.inScopes (Scopes.ofCall p args) fun m => body' p.body m) := by
  obtain ⟨rfl, hdistinct, hcalls⟩ := hm
  -- the formal parameters are distinct, so each argument gets a place of its own
  have hkeeps : Call.KeepsArguments ⟨p, args, .ofCall p args⟩ :=
    Bindings.bindsEach_ofList hp hlen.symm
  refine Match.mapState (S := fun _ => Watches) (fun _ r m h => h.leave _) (hbody _ _ _ ?_)
  exact ⟨rfl, hdistinct, List.forall_mem_cons.2 ⟨hkeeps, hcalls⟩⟩

theorem agree_watchApply {body : Exp → Watched → Outcome Watched Number}
    {body' : Exp → State → Outcome State Number}
    (hbody : ∀ e r m, Watches r m → Agree Watches Eq (body e r) (body' e m)) {f : Function}
    (hf : ∀ p, f = .procedure p → p.formals.Nodup) (call : Exp) (args : List Number)
    (hm : Watches r m) :
    Agree Watches Eq (watchApply body call f args r) (applyFunction body' call f args m) := by
  cases f with
  | procedure p =>
    simp only [watchApply, applyFunction]
    split
    · next hlen => exact agree_watchCall hbody (hf p rfl) hlen hm
    · exact .fault le_rfl hm
  | primitive p =>
    simp only [watchApply, applyFunction, Machine.unnoted, applyPrimitive, hm.plain]
    cases p.run args m.console.out with
    | value n out => exact .value le_rfl (hm.of_functions_eq rfl rfl rfl) rfl
    | fault e out => exact .fault le_rfl (hm.of_functions_eq rfl rfl rfl)
    | unfinished out => exact .unfinished le_rfl (hm.of_functions_eq rfl rfl rfl)

/-- One level of evaluation, from the levels below. -/
theorem agree_watch_succ (l : Limits) {left : Nat}
    (ih : ∀ e r m, Watches r m → Agree Watches Eq (watch l left e r) (eval l left e m)) (e : Exp)
    (hm : Watches r m) : Agree Watches Eq (watch l (left + 1) e r) (eval l (left + 1) e m) := by
  cases e with
  | literal n => exact .value le_rfl hm rfl
  | var x =>
    simp only [watch, eval, hm.plain]
    cases m.memory.get? x with
    | some n => exact .value le_rfl hm rfl
    | none => exact .fault le_rfl hm
  | set x e =>
    refine (ih e r m hm).andThen ?_
    rintro - - n _ r₁ m₁ hm₁ rfl
    rw [hm₁.plain]
    cases hx : m₁.memory.assign? x n with
    | none => exact .fault le_rfl hm₁
    | some memory =>
      refine .value le_rfl (hm₁.of_functions_eq rfl rfl ?_) rfl
      exact Memory.functions_assign? hx
  | cond test yes no =>
    refine (ih test r m hm).andThen ?_
    rintro - - n _ r₁ m₁ hm₁ rfl
    split
    · exact ih yes r₁ m₁ hm₁
    · exact ih no r₁ m₁ hm₁
  | loop test body =>
    exact Match.evalWhile (fun _ => rfl) (fun h => congrArg isTrue h) l.turns hm
      (fun _ _ r m hm => ih test r m hm) fun _ _ r m hm => ih body r m hm
  | block parts => exact Match.evalLast hm rfl fun _ _ e _ r m hm => ih e r m hm
  | call function args =>
    simp only [watch, eval, hm.plain]
    cases hf : m.memory.functions.get? function with
    | none => exact .fault le_rfl hm
    | some f =>
      have hargs : Agree Watches (fun ns ns' => ns.length = args.length ∧ List.Forall₂ Eq ns ns')
          (evalEach (watch l left) args r) (evalEach (eval l left) args m) :=
        Match.evalEach (V := fun _ : OneWorld => Eq) (fun _ h => h) hm
          fun _ _ e _ r m hm => ih e r m hm
      refine hargs.andThen ?_
      rintro - - ns ns' r₁ m₁ hm₁ ⟨-, hns⟩
      obtain rfl : ns = ns' := by rwa [List.forall₂_eq_eq_eq] at hns
      -- the function was looked up before its arguments were evaluated, so in `m`
      have hformals : ∀ p, f = .procedure p → p.formals.Nodup := by
        rintro p rfl
        exact hm.distinct function p hf
      rw [hm₁.plain]
      refine Trace.match_around_same Watches.sameOnBoth (fun _ _ _ h => congrArg Number.text h) hm₁
        (fun n r₂ m₂ hm₂ => ?_) fun r₂ m₂ hm₂ => agree_watchApply ih hformals _ ns hm₂
      refine hm₂.of_functions_eq ?_ rfl (functions_setTraceCount n m₂.memory)
      rw [watchTraceCount, hm₂.plain]
      rfl

/-- Evaluation with a journal is evaluation without one, and no call loses an argument. -/
theorem agree_watch (l : Limits) (left : Nat) (e : Exp) (hm : Watches r m) :
    Agree Watches Eq (watch l left e r) (eval l left e m) := by
  induction left generalizing e r m with
  | zero => exact .fault le_rfl hm
  | succ left ih => exact agree_watch_succ l (fun e r m hm => ih e hm) e hm

theorem agree_watchGlobal (l : Limits) (e : Exp) (hm : Watches r m) :
    Agree Watches Eq (watchGlobal l e r) (evalGlobal l e m) := by
  obtain ⟨rfl, hdistinct, hcalls⟩ := hm
  refine Match.mapState (S := fun _ => Watches) (fun _ r m h => h.leave _) ?_
  exact agree_watch l l.depth e ⟨rfl, hdistinct, hcalls⟩

/-! ### Sessions -/

/-- A definition that changes the state and then prints a line. -/
theorem agree_echo (change : State → State) (hm : Watches r m)
    (hdistinct : (change m).memory.DistinctFormals) (echo : Echo) (line : Unit → String) :
    Agree Watches Eq (r.unnoted fun m => (change m).echo echo line)
      ((change m).echo echo line) := by
  rw [Machine.unnoted, hm.plain]
  exact Machine.match_echo (fun console => ⟨rfl, hdistinct, hm.calls⟩) echo line

theorem agree_watchDefine (l : Limits) (echo : Echo) (d : Definition Exp Procedure)
    (hm : Watches r m) : Agree Watches Eq (watchDefine l echo d r) (define l echo d m) := by
  cases d with
  | val name e =>
    refine (agree_watchGlobal l e hm).andThen ?_
    rintro - - n _ r₁ m₁ hm₁ rfl
    exact agree_echo (fun m => State.defineGlobal m name n) hm₁ hm₁.distinct echo _
  | exp e =>
    refine (agree_watchGlobal l e hm).andThen ?_
    rintro - - n _ r₁ m₁ hm₁ rfl
    exact agree_echo (fun m => State.defineGlobal m itName n) hm₁ hm₁.distinct echo _
  | function name p =>
    simp only [watchDefine, define]
    cases hrepeated : repeated? p.formals with
    | some formal => exact .fault le_rfl hm
    | none =>
      refine agree_echo (fun m => State.defineFunction m name p) hm ?_ echo _
      -- the new function is accepted because it repeats no formal parameter
      intro name' p' hp'
      by_cases hname : name = name'
      · subst hname
        have hget := Bindings.get?_set_self name (Function.procedure p) m.memory.functions
        obtain rfl : p = p' := by simpa using hget.symm.trans hp'
        exact repeated?_eq_none_iff.1 hrepeated
      · have hget := Bindings.get?_set_ne hname (Function.procedure p) m.memory.functions
        exact hm.distinct name' p' (hget.symm.trans hp')

theorem watchedTwin_follows : watchedTwin.Follows Watches where
  console h := congrArg Machine.console h.plain
  withConsole := by
    rintro r m ⟨rfl, hdistinct, hcalls⟩ console
    exact ⟨rfl, hdistinct, hcalls⟩
  resetTrace := by
    rintro r m ⟨rfl, hdistinct, hcalls⟩
    exact ⟨rfl, hdistinct, hcalls⟩
  define hm _ := agree_watchDefine _ _ _ hm
  eval hm _ _ := agree_watchGlobal _ _ hm

theorem distinctFormals_initial : Memory.initial.DistinctFormals := by
  intro name p hp
  obtain ⟨q, -, hq⟩ := List.mem_map.1 (Bindings.mem_of_get? hp)
  cases hq

/-- In the course of a session no call loses an argument, and no function in the table at
the end repeats a formal parameter. -/
theorem argumentsKept_runTexts (console : Console) (limits : Limits) (settings : Settings)
    (disk : Disk) (texts : List (String × String)) :
    let watched := (watchedTwin.session console limits settings).runTexts disk texts
    let plain := (Session.initial Language.procedural console limits settings).runTexts disk texts
    Agree (fun s' s => watchedTwin.plain s' = s) Eq watched plain ∧
      (∀ c ∈ watched.state.machine.journal, c.KeepsArguments) ∧
      Memory.DistinctFormals plain.state.machine.memory := by
  intro watched plain
  have hstart : Watches (State.initial console).journaled (State.initial console) :=
    ⟨rfl, distinctFormals_initial, fun c hc => nomatch hc⟩
  obtain ⟨hagree, hwatches⟩ := watchedTwin_follows.runTexts_session (fun _ _ hm => hm.plain) console
    hstart limits settings disk texts
  exact ⟨hagree, hwatches.calls, hwatches.distinct⟩

end Primer.Procedural
