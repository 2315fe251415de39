/-
Primer/Proofs/DepthLimit.lean

The depth limit cuts evaluations off and does nothing else.

In both languages an evaluation is compared with itself under wider bounds: a
greater depth, or more turns for its loops.  The step lemma `cut_eval_succ`
carries the comparison from one level of depth to the next; the run lemma
`cut_eval` is the induction over the levels that are left.

* If neither the depth nor the levels differ, only the bound on turns can have
  cut the evaluation off.  So an evaluation that ends ends the same way with
  more turns (`stable_evalFrom`), and what it ends in does not depend on the bound.
* If the depth differs, an evaluation that does not end in the error of the
  smaller limit is not affected at all, and one that does had written only what
  the evaluation under the greater limit writes, too
  (`depth_limit_only_cuts_off`).
-/
import Primer.Functional.Eval
import Primer.Procedural.Eval
import Primer.Proofs.Cutoff
import Primer.Proofs.Lockstep
import Primer.Proofs.Results

namespace Primer

open Outcome

/-! ### The functional language -/

namespace Functional

variable {E : Error → Prop} {l l' : Limits}

/-- Evaluation of an expression that stands `start` levels deep, as a function of
the bound on turns. -/
def evalFrom (depth start : Nat) (e : Exp) (env : Env) (m : State) :
    Nat → Outcome State Value :=
  fun turns => eval ⟨depth, turns⟩ (depth - start) e env m

theorem Primitive.precedes_run (p : Primitive) (args : List Value) (out : Channel) :
    out.Precedes (p.run args out).state := by
  unfold run
  split
  · rw [state_map]
    exact .write out _
  · rw [state_map]
    exact .writeText out _
  · rw [state_map]
    exact .writeText out _
  · next v =>
    cases operand .printu v with
    | error e => exact .refl out
    | ok n =>
      simp only [Outcome.ofExcept, andThen_value, state_map]
      exact .emitCharacter out n
  · -- the primitives that only compute leave the channel alone
    rw [state_ofExcept]
    exact .refl out

theorem precedes_applyPrimitive (p : Primitive) (args : List Value) (call : Exp) (m : State) :
    m.Precedes (applyPrimitive p args call m).state := by
  rw [applyPrimitive, state_mapError, state_mapState]
  exact .withOut (p.precedes_run args _)

theorem precedes_extend (m : State) (env : Env) (pairs : List (String × Value)) :
    m.Precedes (m.extend env pairs).2 := .of_console_eq rfl

theorem console_setTraceCount (env : Env) (n : Number) (m : State) :
    (State.setTraceCount env n m).console = m.console := by
  unfold State.setTraceCount
  split <;> rfl

theorem console_assignAll (env : Env) (pairs : List (String × Value)) (m : State) :
    (assignAll env pairs m).console = m.console := by
  unfold assignAll
  induction pairs generalizing m with
  | nil => rfl
  | cons p ps ih => exact ih _

/-- Applying a function whose body may be cut off. -/
theorem cut_applyValue {body body' : Exp → Env → State → Outcome State Value}
    (hbody : ∀ e env m, Cut E m (body e env m) (body' e env m)) (call callee : Exp) (f : Value)
    (args : List Value) (m : State) :
    Cut E m (applyValue body call callee f args m) (applyValue body' call callee f args m) := by
  cases f with
  | closure lambda env =>
    simp only [applyValue]
    split
    · exact (hbody _ _ _).of_precedes (precedes_extend m env _)
    · exact .same (.refl m)
  | primitive p => exact .same (precedes_applyPrimitive p args call m)
  | _ => exact .same (.refl m)

theorem cut_bindEach {evalIn evalIn' : Exp → Env → State → Outcome State Value}
    (heval : ∀ e env m, Cut E m (evalIn e env m) (evalIn' e env m))
    (bindings : List (String × Exp)) (env : Env) (m : State) :
    Cut E m (bindEach evalIn bindings env m) (bindEach evalIn' bindings env m) := by
  induction bindings generalizing env m with
  | nil => exact .same (.refl m)
  | cons b bs ih =>
    refine (heval b.2 env m).andThen fun v s => ?_
    exact (ih _ _).of_precedes (precedes_extend s env _)

/-- One level of evaluation: if the evaluations one level down may be cut off, so
may this one. -/
theorem cut_eval_succ {left left' : Nat} (hturns : l.turns ≤ l'.turns)
    (ih : ∀ e env m, Cut E m (eval l left e env m) (eval l' left' e env m))
    (e : Exp) (env : Env) (m : State) :
    Cut E m (eval l (left + 1) e env m) (eval l' (left' + 1) e env m) := by
  cases e with
  | literal d => exact .same (.refl m)
  | var x =>
    simp only [eval]
    split <;> exact .same (.refl m)
  | set x e =>
    refine (ih e env m).andThen fun v s => ?_
    split <;> exact .same (.of_console_eq rfl)
  | cond test yes no =>
    refine (ih test env m).andThen fun v s => ?_
    split
    · exact ih yes env s
    · exact ih no env s
  | loop test body => exact .evalWhile (ih test env) (ih body env) hturns
  | block parts => exact .evalLast (fun e s => ih e env s) _ parts
  | apply callee args =>
    refine (ih callee env m).andThen fun f s => ?_
    refine (Cut.evalEach (fun e s => ih e env s) args).andThen fun vs s => ?_
    exact Trace.cut_around (console_setTraceCount env)
      (cut_applyValue ih (.apply callee args) callee f vs)
  | lambda label formals body => exact .same (.refl m)
  | bind kind bindings body =>
    cases kind with
    | plain =>
      refine (Cut.evalEach (fun b s => ih b.2 env s) bindings).andThen fun vs s => ?_
      exact (ih body _ _).of_precedes (precedes_extend s env _)
    | sequential => exact (cut_bindEach ih bindings env m).andThen fun inner s => ih body inner s
    | recursive =>
      simp only [eval]
      split
      · exact .same (.refl m)
      · -- the frame of placeholders, the initial values, and the body in that frame
        refine Cut.of_precedes (precedes_extend m env _)
          ((Cut.evalEach (fun b s => ih b.2 _ s) bindings).andThen fun vs s => ?_)
        exact (ih body _ _).of_precedes (.of_console_eq (console_assignAll _ _ _))

/-- Evaluation only adds to what is written. -/
theorem precedes_eval (l : Limits) (left : Nat) (e : Exp) (env : Env) (m : State) :
    m.Precedes (eval l left e env m).state := by
  have hself : ∀ left e env m,
      Cut (fun _ => False) m (eval l left e env m) (eval l left e env m) := by
    intro left
    induction left with
    | zero => exact fun e env m => .same (.refl m)
    | succ left ih => exact cut_eval_succ (Nat.le_refl _) ih
  exact (hself left e env m).precedes

/-- Evaluation with fewer levels left and fewer turns.  The error of the depth
limit may cut it off, unless nothing but the turns differs. -/
theorem cut_eval {left left' : Nat} (hleft : left ≤ left') (hturns : l.turns ≤ l'.turns)
    (hE : E (.tooDeep l.depth) ∨ left = left' ∧ l.depth = l'.depth) (e : Exp) (env : Env)
    (m : State) : Cut E m (eval l left e env m) (eval l' left' e env m) := by
  induction left generalizing left' e env m with
  | zero =>
    -- cut off here, or out of levels on both sides
    rcases hE with hE | ⟨rfl, hdepth⟩
    · exact .fault hE (.refl m) (precedes_eval l' left' e env m)
    · simp only [eval, hdepth]
      exact .same (.refl m)
  | succ left ih =>
    obtain ⟨left', rfl⟩ : ∃ k, left' = k + 1 := ⟨left' - 1, by omega⟩
    exact cut_eval_succ hturns (ih (by omega) (hE.imp id fun h => ⟨by omega, h.2⟩)) e env m

theorem cut_evalFrom {d d' turns turns' : Nat} (hd : d ≤ d') (hturns : turns ≤ turns')
    (hE : E (.tooDeep d) ∨ d = d') (start : Nat) (e : Exp) (env : Env) (m : State) :
    Cut E m (evalFrom d start e env m turns) (evalFrom d' start e env m turns') := by
  have hleft : d - start ≤ d' - start := by omega
  show Cut E m (eval ⟨d, turns⟩ (d - start) e env m) (eval ⟨d', turns'⟩ (d' - start) e env m)
  exact cut_eval hleft hturns (hE.imp id fun h => ⟨congrArg (· - start) h, h⟩) e env m

end Functional

/-! ### The procedural language -/

namespace Procedural

variable {E : Error → Prop} {l l' : Limits}

/-- Evaluation of an expression that stands `start` levels deep, as a function of
the bound on turns. -/
def evalFrom (depth start : Nat) (e : Exp) (m : State) : Nat → Outcome State Number :=
  fun turns => eval ⟨depth, turns⟩ (depth - start) e m

theorem Primitive.precedes_run (p : Primitive) (args : List Number) (out : Channel) :
    out.Precedes (p.run args out).state := by
  unfold run
  split
  case h_1 | h_2 | h_3 | h_4 =>
    rw [state_ofExcept]
    exact .refl out
  case h_8 | h_9 =>
    rw [state_map]
    exact .write out _
  case h_10 =>
    rw [state_map]
    exact .emitCharacter out _
  all_goals exact .refl out

theorem precedes_applyPrimitive (p : Primitive) (args : List Number) (call : Exp) (m : State) :
    m.Precedes (applyPrimitive p args call m).state := by
  rw [applyPrimitive, state_mapError, state_mapState]
  exact .withOut (p.precedes_run args _)

/-- Running in other scopes.  Those of now come back however the run ends. -/
theorem cut_inScopes {α : Type} {run run' : State → Outcome State α}
    (hrun : ∀ s, Cut E s (run s) (run' s)) (m : State) (scopes : Scopes) :
    Cut E m (m.inScopes scopes run) (m.inScopes scopes run') := by
  have hin : m.Precedes { m with memory := { m.memory with scopes := scopes } } :=
    .of_console_eq rfl
  unfold State.inScopes
  apply Cut.mapState
  · intro s
    rfl
  · exact (hrun _).of_precedes hin

/-- Applying a function whose body may be cut off. -/
theorem cut_applyFunction {body body' : Exp → State → Outcome State Number}
    (hbody : ∀ e m, Cut E m (body e m) (body' e m)) (call : Exp) (f : Function)
    (args : List Number) (m : State) :
    Cut E m (applyFunction body call f args m) (applyFunction body' call f args m) := by
  cases f with
  | procedure p =>
    simp only [applyFunction]
    split
    · exact cut_inScopes (hbody p.body) m _
    · exact .same (.refl m)
  | primitive p => exact .same (precedes_applyPrimitive p args call m)

/-- One level of evaluation: if the evaluations one level down may be cut off, so
may this one. -/
theorem cut_eval_succ {left left' : Nat} (hturns : l.turns ≤ l'.turns)
    (ih : ∀ e m, Cut E m (eval l left e m) (eval l' left' e m)) (e : Exp) (m : State) :
    Cut E m (eval l (left + 1) e m) (eval l' (left' + 1) e m) := by
  cases e with
  | literal n => exact .same (.refl m)
  | var x =>
    simp only [eval]
    split <;> exact .same (.refl m)
  | set x e =>
    refine (ih e m).andThen fun n s => ?_
    split <;> exact .same (.of_console_eq rfl)
  | cond test yes no =>
    refine (ih test m).andThen fun n s => ?_
    split
    · exact ih yes s
    · exact ih no s
  | loop test body => exact .evalWhile (ih test) (ih body) hturns
  | block parts => exact .evalLast ih _ parts
  | call function args =>
    simp only [eval]
    split
    · exact .same (.refl m)
    · next f hf =>
      refine (Cut.evalEach ih args).andThen fun ns s => ?_
      exact Trace.cut_around (fun _ _ => rfl) (cut_applyFunction ih (.call function args) f ns)

/-- Evaluation only adds to what is written. -/
theorem precedes_eval (l : Limits) (left : Nat) (e : Exp) (m : State) :
    m.Precedes (eval l left e m).state := by
  have hself : ∀ left e m, Cut (fun _ => False) m (eval l left e m) (eval l left e m) := by
    intro left
    induction left with
    | zero => exact fun e m => .same (.refl m)
    | succ left ih => exact cut_eval_succ (Nat.le_refl _) ih
  exact (hself left e m).precedes

/-- Evaluation with fewer levels left and fewer turns. -/
theorem cut_eval {left left' : Nat} (hleft : left ≤ left') (hturns : l.turns ≤ l'.turns)
    (hE : E (.tooDeep l.depth) ∨ left = left' ∧ l.depth = l'.depth) (e : Exp) (m : State) :
    Cut E m (eval l left e m) (eval l' left' e m) := by
  induction left generalizing left' e m with
  | zero =>
    rcases hE with hE | ⟨rfl, hdepth⟩
    · exact .fault hE (.refl m) (precedes_eval l' left' e m)
    · simp only [eval, hdepth]
      exact .same (.refl m)
  | succ left ih =>
    obtain ⟨left', rfl⟩ : ∃ k, left' = k + 1 := ⟨left' - 1, by omega⟩
    exact cut_eval_succ hturns (ih (by omega) (hE.imp id fun h => ⟨by omega, h.2⟩)) e m

theorem cut_evalFrom {d d' turns turns' : Nat} (hd : d ≤ d') (hturns : turns ≤ turns')
    (hE : E (.tooDeep d) ∨ d = d') (start : Nat) (e : Exp) (m : State) :
    Cut E m (evalFrom d start e m turns) (evalFrom d' start e m turns') := by
  have hleft : d - start ≤ d' - start := by omega
  show Cut E m (eval ⟨d, turns⟩ (d - start) e m) (eval ⟨d', turns'⟩ (d' - start) e m)
  exact cut_eval hleft hturns (hE.imp id fun h => ⟨congrArg (· - start) h, h⟩) e m

end Procedural

/-! ### Wider limits -/

section Wider

variable {μ α : Type} {m : Machine μ} {d : Nat}

/-- With more turns a computation that ended ends the same way. -/
def Stable (run : Nat → Outcome (Machine μ) α) : Prop :=
  ∀ turns turns', turns ≤ turns' → (run turns).finished = true → run turns' = run turns

theorem stable_of_cut {run : Nat → Outcome (Machine μ) α}
    (h : ∀ turns turns', turns ≤ turns' → Cut (fun _ => False) m (run turns) (run turns')) :
    Stable run := by
  intro turns turns' hle hfin
  generalize ho : run turns = o at hfin
  have hcut := h turns turns' hle
  rw [ho] at hcut
  cases hcut with
  | same _ => rfl
  | fault he _ _ => exact he.elim
  | unfinished _ _ => simp [finished] at hfin

theorem EndsIn.eq_of_le {run : Nat → Outcome (Machine μ) α} {o : Outcome (Machine μ) α}
    (hrun : Stable run) (h : EndsIn run o) : ∃ bound, ∀ turns, bound ≤ turns → run turns = o := by
  obtain ⟨hfin, bound, rfl⟩ := h
  exact ⟨bound, fun turns hle => hrun bound turns hle hfin⟩

/-- The computation `run` is `run'` cut off by the depth limit `d`: where it does
not end in the error of that limit, `run'` ends as it does; and where it does,
it had written a first part of what `run'` writes, by its end or, if it has
none, from some number of turns on. -/
structure CutOffAt (d : Nat) (run run' : Nat → Outcome (Machine μ) α) : Prop where
  ends : ∀ o, EndsIn run o → (∀ s, o ≠ .fault (.tooDeep d) s) → EndsIn run' o
  writes : ∀ s, EndsIn run (.fault (.tooDeep d) s) →
    (∀ o', EndsIn run' o' → s.Precedes o'.state) ∧
      ∃ bound, ∀ turns, bound ≤ turns → s.Precedes (run' turns).state

/-- What two bounded computations have to satisfy at every bound. -/
theorem cutOffAt_of_cut {run run' : Nat → Outcome (Machine μ) α} (hrun : Stable run)
    (hrun' : Stable run')
    (hcut : ∀ turns, Cut (Eq (.tooDeep d)) m (run turns) (run' turns)) :
    CutOffAt d run run' where
  ends := by
    rintro o ⟨hfin, turns, rfl⟩ hne
    generalize ho : run turns = o at hfin hne
    have h := hcut turns
    rw [ho] at h
    cases h with
    | same _ => exact ⟨hfin, turns, rfl⟩
    | fault he _ _ => exact absurd (by rw [← he]) (hne _)
    | unfinished _ _ => simp [finished] at hfin
  writes := by
    intro s hs
    obtain ⟨bound, hbound⟩ := hs.eq_of_le hrun
    -- from `bound` on `run` has ended, and there `hcut` compares it with `run'`
    have hlate : ∀ turns, bound ≤ turns → s.Precedes (run' turns).state := by
      intro turns hle
      have h := hcut turns
      rw [hbound turns hle] at h
      generalize run' turns = o' at h
      cases h with
      | same _ => exact .refl s
      | fault _ _ h => exact h
    refine ⟨fun o' ho' => ?_, bound, hlate⟩
    -- at a bound that is enough for both
    obtain ⟨bound', hbound'⟩ := ho'.eq_of_le hrun'
    have h := hlate (max bound bound') (Nat.le_max_left ..)
    rwa [hbound' _ (Nat.le_max_right ..)] at h

end Wider

/-- An evaluation ends the same way with more turns. -/
theorem Functional.stable_evalFrom (depth start : Nat) (e : Functional.Exp)
    (env : Functional.Env) (m : Functional.State) :
    Stable (Functional.evalFrom depth start e env m) :=
  stable_of_cut fun _ _ hle =>
    Functional.cut_evalFrom (Nat.le_refl depth) hle (.inr rfl) start e env m

theorem Procedural.stable_evalFrom (depth start : Nat) (e : Procedural.Exp)
    (m : Procedural.State) : Stable (Procedural.evalFrom depth start e m) :=
  stable_of_cut fun _ _ hle =>
    Procedural.cut_evalFrom (Nat.le_refl depth) hle (.inr rfl) start e m

/-- **The depth limit only cuts evaluations off.**  From any state and at any
depth to start with, an evaluation under the limit `d` is the evaluation under
a greater limit `d'`, cut off where it goes deeper than `d`. -/
theorem depth_limit_only_cuts_off {d d' : Nat} (hd : d ≤ d') (start : Nat) :
    (∀ (e : Functional.Exp) (env : Functional.Env) (m : Functional.State),
      CutOffAt d (Functional.evalFrom d start e env m) (Functional.evalFrom d' start e env m)) ∧
    (∀ (e : Procedural.Exp) (m : Procedural.State),
      CutOffAt d (Procedural.evalFrom d start e m) (Procedural.evalFrom d' start e m)) := by
  refine ⟨fun e env m => ?_, fun e m => ?_⟩
  · exact cutOffAt_of_cut (Functional.stable_evalFrom d start e env m)
      (Functional.stable_evalFrom d' start e env m)
      fun turns => Functional.cut_evalFrom hd (Nat.le_refl turns) (.inl rfl) start e env m
  · exact cutOffAt_of_cut (Procedural.stable_evalFrom d start e m)
      (Procedural.stable_evalFrom d' start e m)
      fun turns => Procedural.cut_evalFrom hd (Nat.le_refl turns) (.inl rfl) start e m

/-- Three levels are not enough for four nested blocks, but they are enough for
what is printed before. -/
theorem depth_limit_only_cuts_off_nested :
    let nested : Functional.Exp :=
      .block [.apply (.var "println") [.literal (.bool true)],
        .block [.block [.literal (.bool true)]]]
    let m : Functional.State := ⟨⟨⟨#[[("println", .primitive .println)]]⟩, 0⟩, .empty, 0⟩
    (∃ s, EndsIn (Functional.evalFrom 3 0 nested .globals m) (.fault (.tooDeep 3) s) ∧
        s.console.out.text = "#t\n") ∧
      3 ≤ 4 ∧
      CutOffAt 3 (Functional.evalFrom 3 0 nested .globals m)
        (Functional.evalFrom 4 0 nested .globals m) := by
  intro nested m
  refine ⟨⟨_, ⟨rfl, 0, rfl⟩, ?_⟩, by decide,
    (depth_limit_only_cuts_off (by decide) 0).1 nested .globals m⟩
  decide +kernel

end Primer
