/-
Primer/Proofs/Earlier.lean

What was printed before does not matter.

A program never looks at what is on its output.  So if the text `before` has been
printed already, everything happens as it would have happened otherwise, and `before`
stands in front of what is printed.  As an equation (`Outcome.Commutes`): to put
`before` in front of the output and then run is to run and then put `before` in front.
What goes wrong with the output goes wrong one attempt later, for there was one more.

This is shown for evaluation in both languages and then, for any language of which it
holds, for all that a session does (`Session.commutes_runSource`).
-/
import Primer.Proofs.Nesting

namespace Primer

/-! ### Output with something before it -/

/-- The same goes wrong, after one attempt more. -/
def Plan.delayed {φ : Type} (p : Plan φ) : Plan φ := ⟨p.attempts + 1, fun n => p.fault (n - 1)⟩

/-- The channel with a text in front of what was written, which was written by itself. -/
def Channel.after (before : String) (c : Channel) : Channel :=
  { c with text := before ++ c.text, writing := c.writing.delayed }

/-- The console with a text in front of what was printed. -/
def Console.after (before : String) (c : Console) : Console :=
  { c with out := c.out.after before }

/-- The state with a text in front of what was printed. -/
def Machine.after {μ : Type} (before : String) (m : Machine μ) : Machine μ :=
  { m with console := m.console.after before }

/-- The session with a text in front of what was printed. -/
def Session.after {L : Language} (before : String) (s : Session L) : Session L :=
  s.withMachine (s.machine.after before)

namespace Machine

variable {μ : Type} (before : String) (m : Machine μ)

@[simp] theorem memory_after : (m.after before).memory = m.memory := rfl

@[simp] theorem console_after : (m.after before).console = m.console.after before := rfl

@[simp] theorem indent_after : (m.after before).indent = m.indent := rfl

@[simp] theorem diag_after : (m.after before).console.diag = m.console.diag := rfl

end Machine

namespace Channel

theorem wrote_after (before : String) (c : Channel) (s : String) :
    (c.after before).wrote s = (c.wrote s).after before := by
  simp [wrote, after, Plan.next, Plan.delayed, String.append_assoc]

/-- The first text of a channel is a text in front of nothing. -/
theorem wrote_empty (s : String) : empty.wrote s = empty.after s := by
  have htext : "" ++ s = s ++ "" := by simp
  show (⟨"" ++ s, _, _⟩ : Channel) = ⟨s ++ "", _, _⟩
  rw [htext]
  rfl

theorem writeText_after (before : String) (c : Channel) (text : Unit → String) :
    (c.after before).writeText text = (c.writeText text).mapState (after before) := by
  have hnow : (c.after before).writing.now = c.writing.now := rfl
  unfold writeText
  rw [hnow]
  split
  · exact congrArg (Outcome.value ()) (wrote_after before c _)
  · exact congrArg (Outcome.fault _) (wrote_after before c _)

theorem write_after (before : String) (c : Channel) (text : String) :
    (c.after before).write text = (c.write text).mapState (after before) := by
  unfold write
  split
  · rfl
  · exact writeText_after before c _

theorem flush_after (before : String) (c : Channel) :
    (c.after before).flush = c.flush.mapState (after before) := by
  unfold flush after
  dsimp only
  split <;> rfl

end Channel

/-! ### Computations that do not look at something -/

namespace Outcome

variable {σ α β ι : Type}

/-- It makes no difference whether `f` is applied before or after the computation. -/
def Commutes (f : σ → σ) (run : σ → Outcome σ α) : Prop := ∀ s, run (f s) = (run s).mapState f

namespace Commutes

variable {f : σ → σ}

theorem value (a : α) : Commutes f (.value a) := fun _ => rfl

theorem fault (e : Error) : Commutes (α := α) f (.fault e) := fun _ => rfl

theorem andThen {run : σ → Outcome σ α} {next : α → σ → Outcome σ β} (h : Commutes f run)
    (hnext : ∀ a, Commutes f (next a)) : Commutes f fun s => (run s).andThen next := by
  intro s
  show (run (f s)).andThen next = ((run s).andThen next).mapState f
  rw [h s]
  cases run s with
  | value a s => exact hnext a s
  | fault e s => rfl
  | unfinished s => rfl

theorem evalEach {run : ι → σ → Outcome σ α} (h : ∀ a, Commutes f (run a)) (as : List ι) :
    Commutes f (Primer.evalEach run as) := by
  induction as with
  | nil => exact .value []
  | cons a as ih => exact (h a).andThen fun b => ih.andThen fun bs => .value (b :: bs)

theorem evalLast {run : ι → σ → Outcome σ α} (h : ∀ a, Commutes f (run a)) (last : α)
    (as : List ι) : Commutes f (Primer.evalLast run last as) := by
  induction as generalizing last with
  | nil => exact .value last
  | cons a as ih => exact (h a).andThen fun b => ih b

theorem evalWhile {isTrue : α → Bool} {done : α} {test body : σ → Outcome σ α}
    (htest : Commutes f test) (hbody : Commutes f body) (turns : Nat) :
    Commutes f (Primer.evalWhile isTrue done test body turns) := by
  induction turns with
  | zero => exact fun s => rfl
  | succ turns ih =>
    refine htest.andThen fun a => ?_
    cases isTrue a with
    | true => exact hbody.andThen fun _ => ih
    | false => exact .value done

theorem map {run : σ → Outcome σ α} (h : Commutes f run) (g : α → β) :
    Commutes f fun s => (run s).map g := by
  intro s
  show (run (f s)).map g = ((run s).map g).mapState f
  rw [h s, mapState_map]

theorem mapError {run : σ → Outcome σ α} (h : Commutes f run) (g : Error → Error) :
    Commutes f fun s => (run s).mapError g := by
  intro s
  show (run (f s)).mapError g = ((run s).mapError g).mapState f
  rw [h s]
  cases run s <;> rfl

theorem ofExcept (x : Except Error α) : Commutes f (.ofExcept x) := by
  intro s
  cases x <;> rfl

end Commutes

end Outcome

open Outcome

section

variable {μ α : Type} (before : String)

/-- What only writes to the output does so after what was printed before. -/
theorem Machine.commutes_withOut (run : Channel → Outcome Channel α)
    (hrun : Commutes (Channel.after before) run) :
    Commutes (Machine.after before) fun m : Machine μ =>
      (run m.console.out).mapState m.withOut := by
  intro m
  have hout : (run (m.after before).console.out).mapState (m.after before).withOut
      = ((run m.console.out).mapState (Channel.after before)).mapState (m.after before).withOut :=
    congrArg (Outcome.mapState _) (hrun m.console.out)
  refine hout.trans ?_
  dsimp only
  cases run m.console.out <;> rfl

theorem Machine.commutes_echo (echo : Echo) (line : Unit → String) :
    Commutes (Machine.after before) fun m : Machine μ => m.echo echo line := by
  cases echo with
  | off => exact .value ()
  | on =>
    refine Machine.commutes_withOut before (fun out => out.writeLine line) ?_
    exact fun out => Channel.writeText_after before out _

theorem Machine.commutes_diagLine (line : Unit → String) :
    Commutes (Machine.after before) fun m : Machine μ => m.diagLine line := by
  intro m
  simp only [Machine.diagLine, Machine.diag_after]
  cases m.console.diag.writeLine line <;> rfl

namespace Trace

variable {count : Option Number} {spend : Number → Machine μ → Machine μ} {call : Unit → String}

theorem commutes_enter (hspend : ∀ n m, spend n (m.after before) = (spend n m).after before) :
    Commutes (Machine.after before) (enter count spend call) := by
  intro m
  cases count with
  | none => rfl
  | some n =>
    by_cases hn : 0 < n.val
    · simp only [enter, hn, dite_true, Machine.indent_after]
      refine (Machine.commutes_diagLine before _).andThen (fun _ s => ?_) m
      rw [hspend]
      have hlast : Commutes (Machine.after (μ := μ) before) (noteLast m.indent (n.pred hn)) := by
        unfold noteLast
        split
        · exact Machine.commutes_diagLine before _
        · exact .value ()
      exact hlast.andThen (fun _ t => rfl) (spend (n.pred hn) s)
    · simp only [enter, hn, dite_false]
      rfl

theorem commutes_leaveCall {render : α → String} {run : Machine μ → Outcome (Machine μ) α}
    (hrun : Commutes (Machine.after before) run) (call : String) :
    Commutes (Machine.after before) fun m => leaveCall call render (run m) := by
  intro m
  dsimp only
  rw [hrun m]
  cases run m with
  | value a s =>
    exact (Machine.commutes_diagLine before _).map (fun _ => a)
      { s with indent := outdent s.indent }
  | fault e s => rfl
  | unfinished s => rfl

/-- A trace is written to the diagnostics only. -/
theorem commutes_around (hspend : ∀ n m, spend n (m.after before) = (spend n m).after before)
    {render : α → String} {run : Machine μ → Outcome (Machine μ) α}
    (hrun : Commutes (Machine.after before) run) :
    Commutes (Machine.after before) (around count spend call render run) := by
  refine (commutes_enter before hspend).andThen fun traced => ?_
  cases traced with
  | true => exact commutes_leaveCall before hrun (call ())
  | false => exact hrun

end Trace

theorem Arithmetic.commutes_emitCharacter (n : Number) :
    Commutes (Channel.after before) fun out => emitCharacter out n := by
  unfold emitCharacter
  cases character? n with
  | none => exact .fault _
  | some c => exact fun out => Channel.write_after before out c.toString

end

/-! ### The functional language -/

namespace Functional

variable (before : String)

theorem Primitive.commutes_run (p : Primitive) (args : List Value) :
    Commutes (Channel.after before) (p.run args) := by
  unfold run
  split
  · next name => exact Commutes.map (fun out => Channel.write_after before out name) _
  · next v _ => exact Commutes.map (fun out => Channel.writeText_after before out _) _
  · next v => exact Commutes.map (fun out => Channel.writeText_after before out _) _
  · next v =>
    exact (Commutes.ofExcept _).andThen fun n =>
      (Arithmetic.commutes_emitCharacter before n).map _
  · exact .ofExcept _

theorem commutes_applyPrimitive (p : Primitive) (args : List Value) (call : Exp) :
    Commutes (Machine.after before) (applyPrimitive p args call) :=
  (Machine.commutes_withOut before _ (p.commutes_run before args)).mapError _

theorem commutes_applyValue {body : Exp → Env → State → Outcome State Value}
    (hbody : ∀ e env, Commutes (Machine.after before) (body e env)) (call callee : Exp) (f : Value)
    (args : List Value) : Commutes (Machine.after before) (applyValue body call callee f args) := by
  cases f with
  | closure lambda env =>
    intro m
    simp only [applyValue]
    split
    · exact hbody lambda.body _ (State.extend m env _).2
    · rfl
  | primitive p => exact commutes_applyPrimitive before p args call
  | _ => exact .fault _

theorem commutes_bindEach {evalIn : Exp → Env → State → Outcome State Value}
    (heval : ∀ e env, Commutes (Machine.after before) (evalIn e env))
    (bindings : List (String × Exp)) (env : Env) :
    Commutes (Machine.after before) (bindEach evalIn bindings env) := by
  induction bindings generalizing env with
  | nil => exact .value env
  | cons b bs ih =>
    refine (heval b.2 env).andThen fun v m => ?_
    exact ih _ (State.extend m env _).2

theorem assignAll_after (env : Env) (pairs : List (String × Value)) (m : State) :
    assignAll env pairs (m.after before) = (assignAll env pairs m).after before := by
  unfold assignAll
  induction pairs generalizing m with
  | nil => rfl
  | cons p ps ih => exact ih (m.mapStore fun s => (s.assign? env p.1 p.2).getD s)

theorem setTraceCount_after (env : Env) (n : Number) (m : State) :
    State.setTraceCount env n (m.after before) = (State.setTraceCount env n m).after before := by
  simp only [State.setTraceCount, Machine.memory_after]
  cases m.memory.store.holder? env Trace.countName <;> rfl

/-- Evaluation does not look at what was printed. -/
theorem commutes_eval (l : Limits) (left : Nat) (e : Exp) (env : Env) :
    Commutes (Machine.after before) (eval l left e env) := by
  induction left generalizing e env with
  | zero => exact .fault _
  | succ left ih =>
    cases e with
    | literal d => exact .value _
    | var x =>
      intro m
      simp only [eval, Machine.memory_after]
      cases m.memory.store.get? env x <;> rfl
    | set x e =>
      refine (ih e env).andThen fun v m => ?_
      simp only [Machine.memory_after]
      cases m.memory.store.holder? env x <;> rfl
    | cond test yes no =>
      refine (ih test env).andThen fun v => ?_
      cases v.isTrue with
      | true => exact ih yes env
      | false => exact ih no env
    | loop test body => exact .evalWhile (ih test env) (ih body env) l.turns
    | block parts => exact .evalLast (fun e => ih e env) _ parts
    | apply callee args =>
      refine (ih callee env).andThen fun f => ?_
      refine (Commutes.evalEach (fun e => ih e env) args).andThen fun vs m => ?_
      exact Trace.commutes_around before (setTraceCount_after before env)
        (commutes_applyValue before ih (.apply callee args) callee f vs) m
    | lambda label formals body => exact .value _
    | bind kind bindings body =>
      cases kind with
      | plain =>
        refine (Commutes.evalEach (fun b => ih b.2 env) bindings).andThen fun vs m => ?_
        exact ih body _ (State.extend m env _).2
      | sequential =>
        exact (commutes_bindEach before ih bindings env).andThen fun inner => ih body inner
      | recursive =>
        intro m
        simp only [eval]
        split
        · rfl
        · -- the lambda expressions are evaluated in the new frame, which is the same on both sides
          refine (Commutes.evalEach (fun b => ih b.2 _) bindings).andThen (fun vs m => ?_)
            (State.extend m env _).2
          rw [assignAll_after]
          exact ih body _ _

theorem commutes_evalGlobal (l : Limits) (e : Exp) :
    Commutes (Machine.after before) (evalGlobal l e) :=
  fun m => commutes_eval before l l.depth (State.load m e).1 .globals (State.load m e).2

theorem commutes_bindAndEcho (echo : Echo) (name : String) (v : Value) (line : Unit → String) :
    Commutes (Machine.after before) (bindAndEcho echo name v line) :=
  fun m => (Machine.commutes_echo before echo line).map (fun _ => v) (State.defineGlobal m name v)

theorem commutes_define (l : Limits) (echo : Echo) (d : Definition Exp Lambda) :
    Commutes (Machine.after before) (define l echo d) := by
  cases d with
  | val name e =>
    exact (commutes_evalGlobal before l e).andThen fun v =>
      commutes_bindAndEcho before echo name v _
  | function name f =>
    intro m
    simp only [define]
    split
    · rfl
    · exact commutes_bindAndEcho before echo name _ _ (State.loadLambda m f).2
  | exp e =>
    exact (commutes_evalGlobal before l e).andThen fun v =>
      commutes_bindAndEcho before echo itName v _

end Functional

/-! ### The procedural language -/

namespace Procedural

variable (before : String)

theorem Primitive.commutes_run (p : Primitive) (args : List Number) :
    Commutes (Channel.after before) (p.run args) := by
  unfold run
  split
  case h_1 | h_2 | h_3 | h_4 => exact .ofExcept _
  case h_8 | h_9 => exact Commutes.map (fun out => Channel.write_after before out _) _
  case h_10 a => exact (Arithmetic.commutes_emitCharacter before a).map _
  case h_11 => exact .fault _
  all_goals exact .value _

theorem commutes_applyPrimitive (p : Primitive) (args : List Number) (call : Exp) :
    Commutes (Machine.after before) (applyPrimitive p args call) :=
  (Machine.commutes_withOut before _ (p.commutes_run before args)).mapError _

theorem commutes_inScopes {α : Type} {run : State → Outcome State α}
    (hrun : Commutes (Machine.after before) run) (scopes : Scopes) :
    Commutes (Machine.after before) fun m => State.inScopes m scopes run := by
  intro m
  refine (congrArg (Outcome.mapState _)
    (hrun { m with memory := { m.memory with scopes := scopes } })).trans ?_
  simp only [State.inScopes]
  cases run { m with memory := { m.memory with scopes := scopes } } <;> rfl

theorem commutes_applyFunction {body : Exp → State → Outcome State Number}
    (hbody : ∀ e, Commutes (Machine.after before) (body e)) (call : Exp) (f : Function)
    (args : List Number) : Commutes (Machine.after before) (applyFunction body call f args) := by
  cases f with
  | procedure p =>
    intro m
    simp only [applyFunction]
    split
    · exact commutes_inScopes before (hbody p.body) (Scopes.ofCall p args) m
    · rfl
  | primitive p => exact commutes_applyPrimitive before p args call

/-- Evaluation does not look at what was printed. -/
theorem commutes_eval (l : Limits) (left : Nat) (e : Exp) :
    Commutes (Machine.after before) (eval l left e) := by
  induction left generalizing e with
  | zero => exact .fault _
  | succ left ih =>
    cases e with
    | literal n => exact .value _
    | var x =>
      intro m
      simp only [eval, Machine.memory_after]
      cases m.memory.get? x <;> rfl
    | set x e =>
      refine (ih e).andThen fun n m => ?_
      simp only [Machine.memory_after]
      cases m.memory.assign? x n <;> rfl
    | cond test yes no =>
      refine (ih test).andThen fun n => ?_
      cases isTrue n with
      | true => exact ih yes
      | false => exact ih no
    | loop test body => exact .evalWhile (ih test) (ih body) l.turns
    | block parts => exact .evalLast ih _ parts
    | call function args =>
      intro m
      simp only [eval, Machine.memory_after]
      cases m.memory.functions.get? function with
      | none => rfl
      | some f =>
        refine (Commutes.evalEach ih args).andThen (fun ns m => ?_) m
        refine Trace.commutes_around before ?_
          (commutes_applyFunction before ih (.call function args) f ns) m
        exact fun _ _ => rfl

theorem commutes_evalGlobal (l : Limits) (e : Exp) :
    Commutes (Machine.after before) (evalGlobal l e) :=
  commutes_inScopes before (commutes_eval before l l.depth e) .none

theorem commutes_define (l : Limits) (echo : Echo) (d : Definition Exp Procedure) :
    Commutes (Machine.after before) (define l echo d) := by
  cases d with
  | val name e =>
    refine (commutes_evalGlobal before l e).andThen fun n m => ?_
    exact Machine.commutes_echo before echo _ (State.defineGlobal m name n)
  | function name p =>
    intro m
    simp only [define]
    split
    · rfl
    · exact Machine.commutes_echo before echo _ (State.defineFunction m name p)
  | exp e =>
    refine (commutes_evalGlobal before l e).andThen fun n m => ?_
    exact Machine.commutes_echo before echo _ (State.defineGlobal m itName n)

end Procedural

/-! ### Sessions -/

/-- A language whose programs do not look at what was printed. -/
structure Language.Unheeding (L : Language) : Prop where
  define : ∀ before limits echo d, Commutes (Machine.after before) (L.define limits echo d)
  eval : ∀ before limits e, Commutes (Machine.after before) (L.eval limits e)

theorem Language.unheeding_functional : functional.Unheeding :=
  ⟨fun before limits echo d => (Functional.commutes_define before limits echo d).map _,
    Functional.commutes_evalGlobal⟩

theorem Language.unheeding_procedural : procedural.Unheeding :=
  ⟨Procedural.commutes_define, Procedural.commutes_evalGlobal⟩

theorem Console.commutes_note (before line : String) :
    Commutes (Console.after before) fun c => c.note line := by
  intro c
  have hflush : (c.after before).out.flush = c.out.flush.mapState (Channel.after before) :=
    Channel.flush_after before c.out
  simp only [note, hflush]
  cases c.out.flush with
  | value _ out =>
    simp only [Outcome.mapState, andThen_value, after]
    cases c.diag.writeLine fun _ => line <;> rfl
  | fault e out => rfl
  | unfinished out => rfl

theorem Console.commutes_report (before : String) (mode : CatchMode) (style : LocationStyle)
    (e : Error) : Commutes (Console.after before) fun c => c.report mode style e := by
  cases mode with
  | testing => exact .value ()
  | normal =>
    refine (commutes_note before _).andThen fun _ c => ?_
    simp only [after]
    cases c.diag.flush <;> rfl

namespace Session

section

variable {L : Language} (before : String) (s : Session L)

@[simp] theorem machine_after : (s.after before).machine = s.machine.after before := rfl

@[simp] theorem limits_after : (s.after before).limits = s.limits := rfl

@[simp] theorem settings_after : (s.after before).settings = s.settings := rfl

@[simp] theorem mode_after : (s.after before).mode = s.mode := rfl

theorem recover_after (e : Error) (summary : Summary) :
    (s.after before).recover e summary
      = ((s.recover e summary).1, (s.recover e summary).2.after before) := by
  have hreport := Console.commutes_report before s.mode s.settings.locations e s.machine.console
  dsimp only at hreport
  simp only [recover, machine_after, mode_after, settings_after, Machine.console_after, hreport,
    state_mapState]
  rfl

theorem noteFailure_after (message : String) :
    (s.after before).noteFailure message = (s.noteFailure message).after before := by
  have hnote := Console.commutes_note before message s.machine.console
  dsimp only at hnote
  simp only [noteFailure, machine_after, Machine.console_after, hnote, state_mapState]
  rfl

theorem noteTests_after (passed total : Nat) :
    (s.after before).noteTests passed total = (s.noteTests passed total).after before := by
  simp only [noteTests_eq, machine_after, Machine.console_after, Console.after,
    Channel.writeLine, Channel.writeText_after, state_mapState]
  rfl

end

variable {L : Language} (hL : L.Unheeding) (before : String)

include hL

theorem commutes_tryEval (e : L.Exp) (summary : Summary) :
    Commutes (after before) fun s : Session L => s.tryEval e summary := by
  intro s
  simp only [tryEval, machine_after, limits_after, hL.eval before s.limits e s.machine]
  cases L.eval s.limits e s.machine with
  | value v m => rfl
  | unfinished m => rfl
  | fault err m =>
    have hrecover := recover_after before (s.withMachine m) err summary
    exact congrArg (fun r => Outcome.value (none, r.1) r.2) hrecover

theorem commutes_runTest (t : UnitTest L.Exp) (summary : Summary) :
    Commutes (after before) fun s : Session L => s.runTest t summary := by
  cases t with
  | expect e e' =>
    refine (commutes_tryEval hL before e summary).andThen fun (v, summary) => ?_
    cases v with
    | none => exact .value _
    | some v =>
      refine (commutes_tryEval hL before e' summary).andThen fun (v', summary) s => ?_
      cases v' with
      | none => rfl
      | some v' =>
        dsimp only
        split <;> rfl
  | assert e =>
    refine (commutes_tryEval hL before e summary).andThen fun (v, summary) s => ?_
    cases v with
    | none => rfl
    | some v =>
      dsimp only
      split <;> rfl
  | error e =>
    refine (commutes_tryEval hL before e summary).andThen fun (v, summary) s => ?_
    cases v <;> rfl

theorem commutes_countPassed (passed : Nat) (summary : Summary) (tests : List (UnitTest L.Exp)) :
    Commutes (after before) (countPassed (L := L) passed summary tests) := by
  induction tests generalizing passed summary with
  | nil => exact .value (passed, summary)
  | cons t ts ih =>
    refine (commutes_runTest hL before t summary).andThen fun (verdict, summary) s => ?_
    cases verdict with
    | passed => exact ih (passed + 1) summary s
    | failed message =>
      dsimp only
      rw [noteFailure_after]
      exact ih passed summary (s.noteFailure message)

theorem commutes_runTests (tests : List (UnitTest L.Exp)) (summary : Summary) :
    Commutes (after before) (runTests (L := L) tests summary) := by
  intro s
  simp only [runTests]
  split
  · rfl
  · refine (commutes_countPassed hL before 0 summary tests).andThen
      (fun counted s => ?_) { s with mode := .testing }
    have hnote := noteTests_after before { s with mode := .normal } counted.1 tests.length
    exact congrArg (Outcome.value _) hnote

variable {useFile : String → Session L → Outcome (Session L) Summary}
  (huse : ∀ file, Commutes (after before) (useFile file))

omit hL in
theorem commutes_recoverIn (e : Error) (tally : Tally L) :
    Commutes (after before) fun s : Session L => s.recoverIn e tally := by
  intro s
  simp only [recoverIn, recover_after]
  rfl

include huse

theorem commutes_runForm (form : Form L.Exp L.Function) (tally : Tally L) :
    Commutes (after before) (runForm useFile form tally) := by
  intro s
  cases form with
  | definition d =>
    simp only [runForm, machine_after, limits_after, settings_after,
      hL.define before s.limits s.settings.echo d s.machine]
    cases L.define s.limits s.settings.echo d s.machine with
    | value _ m => rfl
    | fault e m => exact commutes_recoverIn before e tally (s.withMachine m)
    | unfinished m => rfl
  | use file =>
    simp only [runForm, huse file s]
    cases useFile file s with
    | value nested s => rfl
    | fault e s => exact commutes_recoverIn before e tally s
    | unfinished s => rfl
  | test t => rfl

theorem commutes_runEntry (entry : Entry) (tally : Tally L) :
    Commutes (after before) (runEntry useFile entry tally) := by
  intro s
  simp only [runEntry]
  split
  · exact commutes_recoverIn before _ tally s
  · split
    · exact commutes_recoverIn before _ tally s
    · exact commutes_runForm hL before huse _ tally s

theorem commutes_runEntries (entries : List Entry) (tally : Tally L) :
    Commutes (after before) (runEntries useFile entries tally) := by
  induction entries generalizing tally with
  | nil => exact .value tally
  | cons entry entries ih => exact (commutes_runEntry hL before huse entry tally).andThen ih

theorem commutes_runUnit (source input : String) :
    Commutes (after before) (runUnit useFile source input) :=
  (commutes_runEntries hL before huse _ _).andThen fun tally =>
    commutes_runTests hL before tally.tests.reverse tally.summary

omit huse

theorem commutes_runFileWithin (disk : Disk) (n : Nat) (path : String) :
    Commutes (after before) (runFileWithin (L := L) disk n path) := by
  induction n generalizing path with
  | zero => exact fun s => rfl
  | succ n ih =>
    intro s
    simp only [runFileWithin]
    cases disk.open? path with
    | none => rfl
    | some doc =>
      -- whether the file is in progress has nothing to do with the output
      have hactive : (s.after before).active.contains doc.identity
          = s.active.contains doc.identity := rfl
      dsimp only
      by_cases hcircular : s.active.contains doc.identity = true
      · rw [if_pos (hactive.trans hcircular), if_pos hcircular]
        rfl
      · have hunit := commutes_runUnit hL before ih path doc.text
          { s with active := s.active ++ [doc.identity] }
        rw [if_neg (hactive ▸ hcircular), if_neg hcircular]
        refine (congrArg (Outcome.mapState _) hunit).trans ?_
        cases runUnit (runFileWithin disk n) path doc.text
          { s with active := s.active ++ [doc.identity] } <;> rfl

/-- A session does not look at what was printed. -/
theorem commutes_runSource (disk : Disk) (source input : String) :
    Commutes (after before) (runSource (L := L) disk source input) :=
  commutes_runUnit hL before (commutes_runFileWithin hL before disk _) source input

end Session

end Primer
