/-
Primer/Proofs/Steady.lean

Properties that a computation keeps, however it ends (`Outcome.Keeps`).

An evaluation changes the memory of a language in few ways.  In the functional language
it makes frames and assigns to variables that are bound; in the procedural one it
assigns to variables that are bound and goes from scopes to scopes.  A property that
these changes keep is *steady*, and every evaluation keeps it (`keeps_eval`).
-/
import Primer.Procedural.Eval
import Primer.Proofs.Cutoff
import Primer.Proofs.Functional.Simulation

namespace Primer

/-! ### Properties that a computation keeps -/

namespace Outcome

variable {σ α β ι : Type} {P : σ → Prop}

/-- However the computation ends, it keeps the property `P`. -/
def Keeps (P : σ → Prop) (run : σ → Outcome σ α) : Prop := ∀ s, P s → P (run s).state

namespace Keeps

theorem value (a : α) : Keeps P (.value a) := fun _ hs => hs

theorem fault (e : Error) : Keeps (α := α) P (.fault e) := fun _ hs => hs

theorem andThen {run : σ → Outcome σ α} {next : α → σ → Outcome σ β} (h : Keeps P run)
    (hnext : ∀ a, Keeps P (next a)) : Keeps P fun s => (run s).andThen next :=
  fun s hs => state_andThen (h s hs) hnext

theorem evalEach {run : ι → σ → Outcome σ α} {as : List ι} (h : ∀ a ∈ as, Keeps P (run a)) :
    Keeps P (Primer.evalEach run as) := by
  induction as with
  | nil => exact .value []
  | cons a as ih =>
    have htail := ih fun a' ha' => h a' (List.mem_cons_of_mem a ha')
    exact (h a List.mem_cons_self).andThen fun b => htail.andThen fun bs => .value (b :: bs)

theorem evalLast {run : ι → σ → Outcome σ α} (last : α) {as : List ι}
    (h : ∀ a ∈ as, Keeps P (run a)) : Keeps P (Primer.evalLast run last as) := by
  induction as generalizing last with
  | nil => exact .value last
  | cons a as ih =>
    refine (h a List.mem_cons_self).andThen fun b => ?_
    exact ih b fun a' ha' => h a' (List.mem_cons_of_mem a ha')

theorem evalWhile {isTrue : α → Bool} {done : α} {test body : σ → Outcome σ α}
    (htest : Keeps P test) (hbody : Keeps P body) (turns : Nat) :
    Keeps P (Primer.evalWhile isTrue done test body turns) := by
  induction turns with
  | zero => exact fun s hs => hs
  | succ turns ih =>
    refine htest.andThen fun a => ?_
    cases isTrue a with
    | true => exact hbody.andThen fun _ => ih
    | false => exact .value done

end Keeps

end Outcome

open Outcome

section

variable {μ α : Type} {P : μ → Prop}

/-- A line of the trace leaves the memory alone. -/
theorem Machine.memory_diagLine (m : Machine μ) (line : Unit → String) :
    (m.diagLine line).state.memory = m.memory := by
  rw [Machine.diagLine, state_mapState]
  rfl

/-- Leaving a call leaves the memory alone. -/
theorem Trace.memory_leaveCall (call : String) (render : α → String)
    (o : Outcome (Machine μ) α) : (leaveCall call render o).state.memory = o.state.memory := by
  cases o with
  | value a s =>
    rw [leaveCall, state_map, Machine.memory_diagLine]
    rfl
  | fault e s => rfl
  | unfinished s => rfl

/-- Entering a call keeps what is kept when the trace count goes down by one. -/
theorem Trace.keeps_enter {count : Option Number} {spend : Number → Machine μ → Machine μ}
    (call : Unit → String) {m : Machine μ} (hm : P m.memory)
    (hspend : ∀ n (hn : 0 < n.val) s, count = some n → s.memory = m.memory →
      P (spend (n.pred hn) s).memory) : P (enter count spend call m).state.memory := by
  cases count with
  | none => exact hm
  | some n =>
    by_cases hn : 0 < n.val
    · have hopening := m.memory_diagLine fun _ => openingLine m.indent (call ())
      simp only [enter, hn, dite_true]
      generalize m.diagLine (fun _ => openingLine m.indent (call ())) = o at hopening ⊢
      cases o with
      | value _ s =>
        have hspent := hspend n hn s rfl hopening
        have hnotice : (noteLast m.indent (n.pred hn) (spend (n.pred hn) s)).state.memory
            = (spend (n.pred hn) s).memory := by
          unfold noteLast
          split
          · exact Machine.memory_diagLine _ _
          · rfl
        rw [← hnotice] at hspent
        rw [andThen_value]
        generalize noteLast m.indent (n.pred hn) (spend (n.pred hn) s) = o' at hspent ⊢
        cases o' <;> exact hspent
      | fault e s => exact hopening ▸ hm
      | unfinished s => exact hopening ▸ hm
    · simp only [enter, hn, dite_false]
      exact hm

/-- A call under the trace keeps what it keeps without, if the trace count may go down by
one. -/
theorem Trace.keeps_around_of_count {count : Option Number}
    {spend : Number → Machine μ → Machine μ} {call : Unit → String} {render : α → String}
    {run : Machine μ → Outcome (Machine μ) α} (hrun : Keeps (fun m => P m.memory) run)
    {m : Machine μ} (hm : P m.memory)
    (hspend : ∀ n (hn : 0 < n.val) s, count = some n → s.memory = m.memory →
      P (spend (n.pred hn) s).memory) :
    P (Trace.around count spend call render run m).state.memory := by
  have henter := keeps_enter call hm hspend
  unfold around
  generalize enter count spend call m = o at henter
  cases o with
  | value traced s =>
    have h := hrun s henter
    rw [andThen_value]
    split
    · rw [memory_leaveCall]
      exact h
    · exact h
  | fault e s => exact henter
  | unfinished s => exact henter

/-- The same if the trace count may change to anything. -/
theorem Trace.keeps_around {count : Option Number} {spend : Number → Machine μ → Machine μ}
    (hspend : ∀ n m, P m.memory → P (spend n m).memory) {call : Unit → String}
    {render : α → String} {run : Machine μ → Outcome (Machine μ) α}
    (hrun : Keeps (fun m => P m.memory) run) :
    Keeps (fun m => P m.memory) (Trace.around count spend call render run) :=
  fun _ hm => Trace.keeps_around_of_count hrun hm fun _ _ s _ hs => hspend _ s (hs ▸ hm)

end

/-! ### The functional language -/

namespace Functional

/-- A property of stores that new frames and assignments to bound variables keep. -/
structure Store.Steady (P : Store → Prop) : Prop where
  extend : ∀ {s} env pairs, P s → P (s.extend env pairs).2
  update : ∀ {s id x} v, P s → (s.frame id).has x = true → P (s.update id x v)

section

variable {P : Store → Prop} (hP : Store.Steady P)

include hP

theorem keeps_applyValue {body : Exp → Env → State → Outcome State Value}
    (hbody : ∀ e env, Keeps (fun m => P m.memory.store) (body e env)) (call callee : Exp)
    (f : Value) (args : List Value) :
    Keeps (fun m => P m.memory.store) (applyValue body call callee f args) := by
  intro m hm
  cases f with
  | closure lambda env =>
    simp only [applyValue]
    split
    · exact hbody lambda.body _ _ (hP.extend env _ hm)
    · exact hm
  | primitive p =>
    rw [applyValue, applyPrimitive, state_mapError, state_mapState]
    exact hm
  | _ => exact hm

theorem keeps_bindEach {evalIn : Exp → Env → State → Outcome State Value}
    (heval : ∀ e env, Keeps (fun m => P m.memory.store) (evalIn e env))
    (bindings : List (String × Exp)) (env : Env) :
    Keeps (fun m => P m.memory.store) (bindEach evalIn bindings env) := by
  induction bindings generalizing env with
  | nil => exact .value env
  | cons b bs ih =>
    refine (heval b.2 env).andThen fun v m hm => ?_
    exact ih _ _ (hP.extend env _ hm)

theorem keeps_setTraceCount (env : Env) (n : Number) (m : State) (hm : P m.memory.store) :
    P (State.setTraceCount env n m).memory.store := by
  unfold State.setTraceCount
  split
  · next h => exact hP.update _ hm (Store.holderIn_mem _ h).2
  · exact hm

/-- An evaluation keeps every steady property of the store. -/
theorem keeps_eval (l : Limits) (left : Nat) (e : Exp) (env : Env) :
    Keeps (fun m => P m.memory.store) (eval l left e env) := by
  induction left generalizing e env with
  | zero => exact .fault _
  | succ left ih =>
    cases e with
    | literal d => exact .value _
    | var x =>
      intro m hm
      simp only [eval]
      split <;> exact hm
    | set x e =>
      refine (ih e env).andThen fun v m hm => ?_
      dsimp only
      split
      · next h => exact hP.update v hm (Store.holderIn_mem _ h).2
      · exact hm
    | cond test yes no =>
      refine (ih test env).andThen fun v => ?_
      cases v.isTrue with
      | true => exact ih yes env
      | false => exact ih no env
    | loop test body => exact .evalWhile (ih test env) (ih body env) l.turns
    | block parts => exact .evalLast _ fun e _ => ih e env
    | apply callee args =>
      refine (ih callee env).andThen fun f => ?_
      refine (Keeps.evalEach fun e _ => ih e env).andThen fun vs m => ?_
      exact Trace.keeps_around (P := fun memory => P memory.store) (keeps_setTraceCount hP env)
        (keeps_applyValue hP ih _ callee f vs) m
    | lambda label formals body => exact .value _
    | bind kind bindings body =>
      cases kind with
      | plain =>
        refine (Keeps.evalEach fun b _ => ih b.2 env).andThen fun vs m hm => ?_
        exact ih body _ _ (hP.extend env _ hm)
      | sequential => exact (keeps_bindEach hP ih bindings env).andThen fun inner => ih body inner
      | recursive =>
        intro m hm
        cases hlambda : nonLambda? bindings with
        | some e =>
          simp only [eval, hlambda]
          exact hm
        | none =>
          cases left with
          | zero =>
            rw [eval_recursive_zero hlambda]
            exact hP.extend env _ hm
          | succ left =>
            rw [eval_recursive_succ hlambda]
            exact ih body _ _ (hP.extend env _ hm)

end

end Functional

/-! ### The procedural language -/

namespace Procedural

/-- A property of memories that assignments to bound variables and changes of scope keep. -/
structure Memory.Steady (P : Memory → Prop) : Prop where
  assign : ∀ {m m' x n}, P m → m.assign? x n = some m' → P m'
  scopes : ∀ {m} scopes, P m → P { m with scopes := scopes }

section

variable {P : Memory → Prop} (hP : Memory.Steady P)

include hP

theorem keeps_inScopes {α : Type} {run : State → Outcome State α}
    (hrun : Keeps (fun m => P m.memory) run) (scopes : Scopes) :
    Keeps (fun m => P m.memory) fun m => State.inScopes m scopes run := by
  intro m hm
  simp only [State.inScopes, state_mapState]
  exact hP.scopes _ (hrun _ (hP.scopes scopes hm))

theorem keeps_applyFunction {body : Exp → State → Outcome State Number}
    (hbody : ∀ e, Keeps (fun m => P m.memory) (body e)) (call : Exp) (f : Function)
    (args : List Number) : Keeps (fun m => P m.memory) (applyFunction body call f args) := by
  intro m hm
  cases f with
  | procedure p =>
    simp only [applyFunction]
    split
    · exact keeps_inScopes hP (hbody p.body) (.ofCall p args) m hm
    · exact hm
  | primitive p =>
    rw [applyFunction, applyPrimitive, state_mapError, state_mapState]
    exact hm

theorem keeps_setTraceCount (n : Number) (m : State) (hm : P m.memory) :
    P (m.memory.setTraceCount n) := by
  unfold Memory.setTraceCount
  cases h : m.memory.assign? Trace.countName n with
  | none => exact hm
  | some memory => exact hP.assign hm h

/-- An evaluation keeps every steady property of the memory. -/
theorem keeps_eval (l : Limits) (left : Nat) (e : Exp) :
    Keeps (fun m => P m.memory) (eval l left e) := by
  induction left generalizing e with
  | zero => exact .fault _
  | succ left ih =>
    cases e with
    | literal n => exact .value n
    | var x =>
      intro m hm
      simp only [eval]
      split <;> exact hm
    | set x e =>
      refine (ih e).andThen fun n m hm => ?_
      dsimp only
      split
      · next h => exact hP.assign hm h
      · exact hm
    | cond test yes no =>
      refine (ih test).andThen fun n => ?_
      cases isTrue n with
      | true => exact ih yes
      | false => exact ih no
    | loop test body => exact .evalWhile (ih test) (ih body) l.turns
    | block parts => exact .evalLast _ fun e _ => ih e
    | call function args =>
      intro m hm
      simp only [eval]
      split
      · exact hm
      · next f hf =>
        refine (Keeps.evalEach fun e _ => ih e).andThen (fun ns m => ?_) m hm
        exact Trace.keeps_around (keeps_setTraceCount hP) (keeps_applyFunction hP ih _ f ns) m

end

end Procedural

end Primer
