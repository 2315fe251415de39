/-
Primer/Proofs/Procedural/Confinement.lean

What an expression of the procedural language can do to the variables around it.

Variables are found by name in three scopes, and the functions that an expression
calls assign to the same names.  Still, of the variables of the call in progress an
expression can change only those that it assigns to itself, and it can make no
variable and no function (`calls_leave_the_caller_alone`).  The one exception is
the trace count, which goes down with every call that is traced; it too may be a
local variable or a formal parameter.

`Confined xs before` is the property that every step keeps, as long as the step
assigns to names in `xs` only.  A call runs in scopes of its own.  Whatever it
does to them, it is confined as well, and so it leaves the function table and the
names of the globals as they are; that is all the caller has to know about it.
-/
import Primer.Proofs.DepthLimit
import Primer.Proofs.Frames
import Primer.Proofs.Steady

namespace Primer

open Outcome

/-! ### Bindings with some values kept -/

/-- Tracing has counted `n` down to `n'`. -/
def Number.CountedDown (n n' : Number) : Prop := 0 ≤ n'.val ∧ n'.val < n.val

/-- The bindings `bs'` have the names of `bs`, and the values of those names that satisfy
`kept`.  If the trace is counted here, the trace count may have gone down. -/
structure Bindings.Keeping (kept : String → Prop) (counted : Prop) (bs bs' : Bindings Number) :
    Prop where
  names : bs'.names = bs.names
  values : ∀ x n, kept x → bs.get? x = some n →
    ∃ n', bs'.get? x = some n' ∧ (n' = n ∨ x = Trace.countName ∧ counted ∧ n.CountedDown n')

namespace Bindings.Keeping

variable {kept : String → Prop} {counted : Prop} {bs bs' : Bindings Number}

theorem refl (bs : Bindings Number) : Keeping kept counted bs bs :=
  ⟨rfl, fun _ n _ hn => ⟨n, hn, .inl rfl⟩⟩

theorem has_eq (h : Keeping kept counted bs bs') (x : String) : bs'.has x = bs.has x := by
  rw [Bool.eq_iff_iff, ← mem_names_iff, ← mem_names_iff, h.names]

/-- A name may be assigned to if its value need not be kept. -/
theorem set (h : Keeping kept counted bs bs') {x : String} (hx : ¬ kept x)
    (hbound : bs'.has x = true) (n : Number) : Keeping kept counted bs (bs'.set x n) where
  names := by rw [names_set, if_pos hbound, h.names]
  values y k hy hk := by
    have hne : x ≠ y := fun hxy => hx (hxy ▸ hy)
    rw [get?_set_ne hne]
    exact h.values y k hy hk

/-- The trace count may go down where it is counted. -/
theorem countDown (h : Keeping kept counted bs bs') (hcounted : counted) {n : Number}
    (hn : bs'.get? Trace.countName = some n) (hpos : 0 < n.val) :
    Keeping kept counted bs (bs'.set Trace.countName (n.pred hpos)) where
  names := by
    have hbound : bs'.has Trace.countName = true := has_eq_true_iff.2 ⟨n, hn⟩
    rw [names_set, if_pos hbound, h.names]
  values y k hy hk := by
    obtain ⟨k', hk', hkept⟩ := h.values y k hy hk
    by_cases hname : y = Trace.countName
    · subst hname
      obtain rfl : n = k' := Option.some.inj (hn.symm.trans hk')
      refine ⟨n.pred hpos, get?_set_self _ _ _, .inr ⟨rfl, hcounted, ?_⟩⟩
      -- it has gone down by one more than it had before
      have hval : (n.pred hpos).val = n.val - 1 := rfl
      unfold Number.CountedDown
      rcases hkept with rfl | ⟨-, -, -, hlt⟩
      · omega
      · omega
    · rw [get?_set_ne (Ne.symm hname)]
      exact ⟨k', hk', hkept⟩

end Bindings.Keeping

namespace Procedural

/-! ### The targets of assignments -/

namespace Exp

mutual

/-- The variables that are assigned to in an expression. -/
def targets : Exp → List String
  | literal _ => []
  | var _ => []
  | set x e => x :: targets e
  | cond test yes no => targets test ++ targets yes ++ targets no
  | loop test body => targets test ++ targets body
  | block parts => targetsEach parts
  | call _ args => targetsEach args

def targetsEach : List Exp → List String
  | [] => []
  | e :: es => targets e ++ targetsEach es

end

theorem targets_subset_targetsEach {e : Exp} {es : List Exp} (h : e ∈ es) :
    e.targets ⊆ targetsEach es := by
  induction es with
  | nil => cases h
  | cons e' es ih =>
    rw [targetsEach]
    rcases List.mem_cons.1 h with rfl | h
    · exact List.subset_append_left _ _
    · exact List.subset_append_of_subset_right _ (ih h)

end Exp

/-! ### Confined changes -/

/-- What may have happened to a memory when, in the call in progress, only names in `xs`
were assigned to.  Of two variables of one name the local one hides the formal
parameter, so the latter keeps its value in any case; and the trace is counted where the
trace count is found. -/
structure Confined (xs : List String) (m m' : Memory) : Prop where
  functions : m'.functions = m.functions
  globals : m'.globals.names = m.globals.names
  locals : Bindings.Keeping (· ∉ xs) True m.scopes.locals m'.scopes.locals
  formals : Bindings.Keeping (fun x => x ∉ xs ∨ m.scopes.locals.has x = true)
    (m.scopes.locals.has Trace.countName = false) m.scopes.formals m'.scopes.formals

namespace Confined

variable {xs : List String} {before m m' : Memory} {x : String} {n : Number}

theorem refl (m : Memory) : Confined xs m m := ⟨rfl, rfl, .refl _, .refl _⟩

theorem assign (h : Confined xs before m) (hx : x ∈ xs) (hm : m.assign? x n = some m') :
    Confined xs before m' := by
  unfold Memory.assign? at hm
  split at hm
  · next hlocal =>
    cases hm
    exact ⟨h.functions, h.globals, h.locals.set (fun hnot => hnot hx) hlocal n, h.formals⟩
  · next hlocal =>
    split at hm
    · next hformal =>
      cases hm
      -- the name is a target, and there is no local variable of that name
      have hnot : ¬ (x ∉ xs ∨ before.scopes.locals.has x = true) := by
        rintro (hnot | hhas)
        · exact hnot hx
        · exact hlocal (h.locals.has_eq x ▸ hhas)
      exact ⟨h.functions, h.globals, h.locals, h.formals.set hnot hformal n⟩
    · split at hm
      · next hglobal =>
        cases hm
        refine ⟨h.functions, ?_, h.locals, h.formals⟩
        rw [Bindings.names_set, if_pos hglobal, h.globals]
      · cases hm

/-- Tracing counts down where the trace count is found. -/
theorem countDown (h : Confined xs before m) (hn : m.get? Trace.countName = some n)
    (hpos : 0 < n.val) : Confined xs before (m.setTraceCount (n.pred hpos)) := by
  unfold Memory.setTraceCount Memory.assign?
  unfold Memory.get? at hn
  split
  · next hlocal =>
    have hcount : m.scopes.locals.get? Trace.countName = some n := by
      obtain ⟨k, hk⟩ := Bindings.has_eq_true_iff.1 hlocal
      rw [hk] at hn
      exact hk.trans hn
    exact ⟨h.functions, h.globals, h.locals.countDown trivial hcount hpos, h.formals⟩
  · next hlocal =>
    rw [Bool.not_eq_true] at hlocal
    rw [Bindings.has_eq_false_iff.1 hlocal] at hn
    split
    · next hformal =>
      have hcount : m.scopes.formals.get? Trace.countName = some n := by
        obtain ⟨k, hk⟩ := Bindings.has_eq_true_iff.1 hformal
        rw [hk] at hn
        exact hk.trans hn
      have hcounted : before.scopes.locals.has Trace.countName = false :=
        (h.locals.has_eq _).symm.trans hlocal
      exact ⟨h.functions, h.globals, h.locals, h.formals.countDown hcounted hcount hpos⟩
    · split
      · next hglobal =>
        refine ⟨h.functions, ?_, h.locals, h.formals⟩
        exact (Bindings.names_set ..).trans ((if_pos hglobal).trans h.globals)
      · exact h

/-- A run in other scopes that is confined there, whatever it assigns to. -/
theorem inScopes (h : Confined xs before m) {ys : List String} {scopes : Scopes}
    (hrun : Confined ys { m with scopes := scopes } m') :
    Confined xs before { m' with scopes := m.scopes } :=
  ⟨hrun.functions.trans h.functions, hrun.globals.trans h.globals, h.locals, h.formals⟩

end Confined

/-! ### Evaluation -/

/-- The run stays within the changes that the targets `xs` allow. -/
abbrev Stays {α : Type} (xs : List String) (run : State → Outcome State α) : Prop :=
  ∀ before, Keeps (fun m => Confined xs before m.memory) run

theorem stays_applyFunction {body : Exp → State → Outcome State Number}
    (hbody : ∀ e, Stays e.targets (body e)) (xs : List String) (call : Exp) (f : Function)
    (args : List Number) : Stays xs (applyFunction body call f args) := by
  intro before m hm
  cases f with
  | procedure p =>
    simp only [applyFunction]
    split
    · have hrun := hbody p.body { m.memory with scopes := .ofCall p args }
        { m with memory := { m.memory with scopes := .ofCall p args } } (.refl _)
      simp only [State.inScopes, state_mapState]
      exact hm.inScopes hrun
    · exact hm
  | primitive p =>
    rw [applyFunction, applyPrimitive, state_mapError, state_mapState]
    exact hm

/-- One level of evaluation, from the levels below. -/
theorem stays_eval_succ (l : Limits) {left : Nat}
    (ih : ∀ e xs, e.targets ⊆ xs → Stays xs (eval l left e)) {e : Exp} {xs : List String}
    (he : e.targets ⊆ xs) : Stays xs (eval l (left + 1) e) := by
  intro before
  cases e with
  | literal n => exact .value n
  | var x =>
    intro m hm
    simp only [eval]
    split <;> exact hm
  | set x e =>
    rw [Exp.targets, List.cons_subset] at he
    apply (ih e xs he.2 before).andThen
    intro n m hm
    dsimp only
    split
    · next hassign => exact hm.assign he.1 hassign
    · exact hm
  | cond test yes no =>
    rw [Exp.targets, List.append_subset, List.append_subset] at he
    apply (ih test xs he.1.1 before).andThen
    intro n
    cases isTrue n with
    | true => exact ih yes xs he.1.2 before
    | false => exact ih no xs he.2 before
  | loop test body =>
    rw [Exp.targets, List.append_subset] at he
    exact .evalWhile (ih test xs he.1 before) (ih body xs he.2 before) l.turns
  | block parts =>
    apply Keeps.evalLast
    intro e hmem
    exact ih e xs (List.Subset.trans (Exp.targets_subset_targetsEach hmem) he) before
  | call function args =>
    intro m hm
    simp only [eval]
    split
    · exact hm
    · next f hf =>
      have hargs : ∀ e ∈ args, Keeps (fun m => Confined xs before m.memory) (eval l left e) :=
        fun e hmem => ih e xs (List.Subset.trans (Exp.targets_subset_targetsEach hmem) he) before
      refine (Keeps.evalEach hargs).andThen (fun ns m hm => ?_) m hm
      apply Trace.keeps_around_of_count (P := Confined xs before)
      · exact stays_applyFunction (fun e => ih e e.targets (List.Subset.refl _)) xs _ f ns before
      · exact hm
      · rintro n hn s hcount hs
        have hdown := hm.countDown hcount hn
        rwa [← hs] at hdown

/-- An evaluation stays within the changes that its own assignments allow. -/
theorem stays_eval (l : Limits) (left : Nat) {e : Exp} {xs : List String} (he : e.targets ⊆ xs) :
    Stays xs (eval l left e) := by
  induction left generalizing e xs with
  | zero => exact fun before => .fault _
  | succ left ih => exact stays_eval_succ l (fun e xs => ih) he

/-- **Calls leave the caller alone.**  From any state, in any scopes and at any depth, the
evaluation of an expression, however it ends,

* leaves the function table as it is, and the names of the globals, of the local
  variables and of the formal parameters of the call in progress;
* leaves the value of every local variable that the expression itself does not assign to,
  and of every formal parameter that it does not assign to or that is hidden by a local
  variable, whatever the functions do that it calls.  Only the variable in which the trace
  count is found may have been counted down. -/
theorem calls_leave_the_caller_alone (depth start turns : Nat) (e : Exp) (m : State) :
    Confined e.targets m.memory (evalFrom depth start e m turns).state.memory :=
  stays_eval ⟨depth, turns⟩ (depth - start) (List.Subset.refl _) m.memory m (.refl _)

end Procedural

end Primer
